import Djogi.Lib.Fallible
import Djogi.Lib.Select
import Djogi.Notify.Delivery
import Djogi.Projection

/-!
# What `emit_event` sends

`emit_event` and `build_notify_payload` of `outbox/mod.rs`, and `parse_raw` of `notify.rs`, over
what they use of `serde_json`.

* `emitAll_notes`: what the transaction of some calls notifies;
* `emitted_delivered`: what `emit_event` wrote is what the receiver decodes, once a transaction.
-/

namespace Djogi.Notify

/-! ## JSON -/

/-- What is used of `serde_json`: `get` gives null where there is nothing, `remove` leaves a value
that is no object as it is. -/
structure SerdeJson where
  Value : Type
  string : String → Value
  object : List (String × Value) → Value
  get : Value → String → Value
  remove : Value → String → Value
  asStr : Value → Option String
  toString : Value → String
  fromStr : String → Option Value

structure SerdeJson.Lawful (json : SerdeJson) : Prop where
  asStr_string : ∀ s, json.asStr (json.string s) = some s
  get_object : ∀ fields key v, (fields.map Prod.fst).Nodup → (key, v) ∈ fields →
    json.get (json.object fields) key = v

variable (json : SerdeJson)

def parseRaw (payload : String) : Option RawEvent := do
  let v ← json.fromStr payload
  let kindStr ← json.asStr (json.get v "kind")
  let idStr ← json.asStr (json.get v "id")
  some ⟨kindStr, idStr⟩

/-! ## `emit_event` -/

inductive OutboxAction
  | create | save | delete
  deriving DecidableEq, Repr

def OutboxAction.asSqlStr : OutboxAction → String
  | .create => "create"
  | .save => "save"
  | .delete => "delete"

theorem OutboxAction.asSqlStr_inj (a b : OutboxAction) (h : a.asSqlStr = b.asSqlStr) : a = b := by
  cases a <;> cases b <;> first | rfl | (exact absurd h (by decide))

/-- What a subscriber is to see of it. -/
def OutboxAction.eventKind : OutboxAction → EventKind
  | .create => .created
  | .save => .updated
  | .delete => .deleted

def notifyValue (action : OutboxAction) (idStr : String) : json.Value :=
  json.object [("kind", json.string action.asSqlStr), ("id", json.string idStr)]

def buildNotifyPayload (action : OutboxAction) (idStr : String) : String :=
  json.toString (notifyValue json action idStr)

/-- A model with events, and how a row of it is serialised. -/
structure EventModel (Row κ : Type) where
  tableName : String
  outboxExclude : List String
  pkValue : Row → κ
  display : κ → String
  toValue : Row → Option json.Value

/-- What a transaction has written: the rows of the outbox, and what it will notify. -/
structure Tx (κ : Type) where
  outbox : List (κ × String × json.Value)
  notes : List (String × String)

inductive EmitError
  | serde
  | outboxTable (name : String)
  | channel (name : String)
  | db
  deriving DecidableEq, Repr

/-- One call of `emit_event`, and what the server answers to its two statements. -/
structure Emit (Row : Type) where
  action : OutboxAction
  row : Row
  inserted : Bool
  notified : Bool

variable {json} {Row κ : Type}

def buildPayload (m : EventModel json Row κ) (row : Row) : Option json.Value :=
  (m.toValue row).map fun value => m.outboxExclude.foldl json.remove value

def EventModel.channel (m : EventModel json Row κ) : String := "djogi_" ++ m.tableName

/-- The notification of an action on the row with a key. -/
def EventModel.note (m : EventModel json Row κ) (key : OutboxAction × κ) : String × String :=
  (m.channel, buildNotifyPayload json key.1 (m.display key.2))

def EventModel.key (m : EventModel json Row κ) (e : Emit Row) : OutboxAction × κ :=
  (e.action, m.pkValue e.row)

def emitEvent (m : EventModel json Row κ) (tx : Tx json κ) (e : Emit Row) :
    Except EmitError (Tx json κ) :=
  match buildPayload m e.row with
  | none => .error .serde
  | some payload =>
    if !isPlainIdent (utf8 (outboxTableName m.tableName)) then
      .error (.outboxTable (outboxTableName m.tableName))
    else if !e.inserted then .error .db
    -- the row is inserted before the channel is looked at
    else if !isPlainIdent (utf8 m.channel) then .error (.channel m.channel)
    else if !e.notified then .error .db
    else .ok {
      outbox := tx.outbox ++ [(m.pkValue e.row, e.action.asSqlStr, payload)]
      notes := tx.notes ++ [m.note (m.key e)] }

/-- The calls of one transaction. -/
def emitAll (m : EventModel json Row κ) (tx : Tx json κ) (calls : List (Emit Row)) :
    Except EmitError (Tx json κ) :=
  calls.foldlM (emitEvent m) tx

theorem emitEvent_notes (m : EventModel json Row κ) (tx tx' : Tx json κ) (e : Emit Row)
    (h : emitEvent m tx e = .ok tx') : tx'.notes = tx.notes ++ [m.note (m.key e)] := by
  unfold emitEvent at h
  split at h
  · cases h
  · split_ifs at h
    cases h
    rfl

theorem emitAll_notes (m : EventModel json Row κ) (calls : List (Emit Row)) (tx tx' : Tx json κ)
    (h : emitAll m tx calls = .ok tx') :
    tx'.notes = tx.notes ++ calls.map fun e => m.note (m.key e) := by
  induction calls generalizing tx with
  | nil =>
    cases h
    exact (List.append_nil _).symm
  | cons e calls ih =>
    obtain ⟨tx₁, hemit, hrest⟩ := Fallible.bind_ok _ _ _ h
    rw [ih tx₁ hrest, emitEvent_notes m tx tx₁ e hemit, List.map_cons, List.append_assoc]
    rfl

/-! ## What is read of it -/

/-- A payload that JSON gives back is parsed to what it was built of. -/
theorem parseRaw_built (hjson : json.Lawful) (action : OutboxAction) (idStr : String)
    (hround : json.fromStr (buildNotifyPayload json action idStr) =
      some (notifyValue json action idStr)) :
    parseRaw json (buildNotifyPayload json action idStr) = some ⟨action.asSqlStr, idStr⟩ := by
  have hget (key : String) (s : String)
      (hmem : (key, json.string s) ∈ [("kind", json.string action.asSqlStr),
        ("id", json.string idStr)]) :
      json.asStr (json.get (notifyValue json action idStr) key) = some s := by
    rw [notifyValue, hjson.get_object _ key (json.string s) (by simp) hmem,
      hjson.asStr_string]
  rw [parseRaw, hround]
  dsimp only [Option.bind_eq_bind, Option.bind_some]
  rw [hget "kind" action.asSqlStr (by simp), hget "id" idStr (by simp)]
  rfl

theorem decode_emitted {fromStr : String → Option κ} {text : String} {id : κ}
    (action : OutboxAction) (h : fromStr text = some id) :
    decodeEvent fromStr ⟨action.asSqlStr, text⟩ = .ok ⟨action.eventKind, id⟩ := by
  cases action <;>
    simp only [decodeEvent, OutboxAction.asSqlStr, OutboxAction.eventKind, h] <;> rfl

theorem eventsOn_filter {parseRaw : String → Option RawEvent} (channel : String)
    (notes : List (String × String)) :
    eventsOn parseRaw channel notes =
      (notes.filter fun n => n.1 = channel).filterMap fun n => parseRaw n.2 := by
  rw [eventsOn, List.filterMap_filter]
  apply List.filterMap_congr
  intro n _
  by_cases hn : n.1 = channel <;> simp [hn]

theorem eventsOn_flatMap {α : Type} {parseRaw : String → Option RawEvent} (channel : String)
    (f : α → List (String × String)) (l : List α) :
    eventsOn parseRaw channel (l.flatMap f) =
      l.flatMap fun a => eventsOn parseRaw channel (f a) := by
  induction l with
  | nil => rfl
  | cons a l ih => rw [List.flatMap_cons, List.flatMap_cons, eventsOn_append, ih]

/-- What a receiver is to see of one transaction that emitted some events. -/
theorem eventsOn_emitted {fromStr : String → Option κ} [DecidableEq κ] (hjson : json.Lawful)
    (m : EventModel json Row κ) (notes : List (String × String)) (calls : List (Emit Row))
    (tx : Tx json κ) (hemit : emitAll m ⟨[], []⟩ calls = .ok tx)
    (hnotes : notes.filter (fun n => n.1 = m.channel) = tx.notes)
    (hround : ∀ e ∈ calls, json.fromStr (m.note (m.key e)).2 =
      some (notifyValue json e.action (m.display (m.pkValue e.row))))
    (hid : ∀ e ∈ calls, fromStr (m.display (m.pkValue e.row)) = some (m.pkValue e.row)) :
    (eventsOn (parseRaw json) m.channel notes.eraseDups).map (decodeEvent fromStr) =
      (calls.map m.key).eraseDups.map fun key => .ok ⟨key.1.eventKind, key.2⟩ := by
  have hparsed : ∀ key ∈ calls.map m.key, parseRaw json (m.note key).2 =
      some ⟨key.1.asSqlStr, m.display key.2⟩ ∧ fromStr (m.display key.2) = some key.2 := by
    intro key hkey
    obtain ⟨e, he, rfl⟩ := List.mem_map.mp hkey
    exact ⟨parseRaw_built hjson _ _ (hround e he), hid e he⟩
  -- equal notifications are of one action on one key
  have hinj : ∀ a ∈ calls.map m.key, ∀ b ∈ calls.map m.key, m.note a = m.note b → a = b := by
    intro a ha b hb heq
    obtain ⟨hpa, hia⟩ := hparsed a ha
    obtain ⟨hpb, hib⟩ := hparsed b hb
    rw [heq, hpb] at hpa
    obtain ⟨hkind, htext⟩ := RawEvent.mk.inj (Option.some.inj hpa)
    rw [← htext, hib] at hia
    exact Prod.ext (OutboxAction.asSqlStr_inj _ _ hkind.symm) (Option.some.inj hia).symm
  have hsent : (notes.eraseDups.filter fun n => n.1 = m.channel) =
      (calls.map m.key).eraseDups.map m.note := by
    have hmap := emitAll_notes m calls _ tx hemit
    rw [List.nil_append] at hmap
    rw [← Select.eraseDups_filter, hnotes, hmap, ← Select.eraseDups_map m.note _ hinj,
      List.map_map]
    rfl
  rw [eventsOn_filter, hsent, List.filterMap_map, List.map_filterMap]
  refine Eq.trans (List.filterMap_congr fun key hkey => ?_) (congrFun List.filterMap_eq_map' _)
  obtain ⟨hparse, hdecode⟩ := hparsed key (List.mem_eraseDups.mp hkey)
  rw [Function.comp_apply, hparse, Option.map_some, decode_emitted key.1 hdecode]

/-- **What is emitted is what is received.** A receiver that has caught up and was told of no loss
was given, last of all and in the order of the transactions, what was emitted since: of each
transaction every action on every row once, where it stood first. -/
theorem emitted_delivered (fromStr : String → Option κ) [DecidableEq κ] (hjson : json.Lawful)
    (m : EventModel json Row κ) {w : World} (h : Reached (parseRaw json) w) (c : Call)
    (hc : c ∈ w.calls) (l : ℕ) (rx : Rx) (hpc : c.pc = .receiving l rx)
    (hchannel : c.channel = m.channel) (hlower : Postgres.folded m.channel = m.channel)
    (txs : List (List (String × String) × List (Emit Row)))
    (hjournal : w.journal.drop rx.since = txs.flatMap fun t => t.1.eraseDups)
    (hemitted : ∀ t ∈ txs, ∃ tx, emitAll m ⟨[], []⟩ t.2 = .ok tx ∧
      t.1.filter (fun n => n.1 = m.channel) = tx.notes)
    (hround : ∀ t ∈ txs, ∀ e ∈ t.2, json.fromStr (m.note (m.key e)).2 =
      some (notifyValue json e.action (m.display (m.pkValue e.row))))
    (hid : ∀ t ∈ txs, ∀ e ∈ t.2, fromStr (m.display (m.pkValue e.row)) = some (m.pkValue e.row))
    (hpolling : (w.listeners l).watcher = .polling) (hinbox : (w.listeners l).inbox = [])
    (hnext : rx.next = (w.sent rx.sender).length) (hlag : ∀ n, .lagged n ∉ rx.got) :
    (txs.flatMap fun t => (t.2.map m.key).eraseDups.map fun key =>
        Except.ok ⟨key.1.eventKind, key.2⟩) <:+
      (given rx.got).map (decodeEvent fromStr) := by
  have hdelivers := delivers_reached h c hc
  obtain ⟨hreplayed, -, -⟩ := hdelivers.accounted l rx (by rw [hpc]; rfl)
  obtain ⟨-, hstart, -, -, hdue, -⟩ := hdelivers.due l rx hpc
  have hgiven : given rx.got = (w.sent rx.sender).drop rx.start := by
    rw [← replay_unlagged _ _ _ _ hreplayed hlag, hnext, List.drop_length, List.append_nil]
  -- what was sent since `LISTEN` ends with what was committed since
  have hcommitted : eventsOn (parseRaw json) m.channel (w.journal.drop rx.since) <:+
      (w.sent rx.sender).drop rx.listened := by
    obtain ⟨lost, hsplit, hlost⟩ := hdue (by rwa [hchannel])
    rw [committed, stream, hlost hpolling, hinbox, eventsOn_append, hchannel, List.append_nil]
      at hsplit
    exact ⟨_, hsplit.trans (List.append_nil _)⟩
  have hdropped : (w.sent rx.sender).drop rx.listened <:+ given rx.got := by
    rw [hgiven, ← Nat.add_sub_of_le hstart, ← List.drop_drop]
    exact List.drop_suffix _ _
  have hdecoded : (eventsOn (parseRaw json) m.channel (w.journal.drop rx.since)).map
      (decodeEvent fromStr) = txs.flatMap fun t => (t.2.map m.key).eraseDups.map fun key =>
        Except.ok ⟨key.1.eventKind, key.2⟩ := by
    rw [hjournal, eventsOn_flatMap, List.map_flatMap]
    refine List.flatMap_congr fun t ht => ?_
    obtain ⟨tx, hemit, hnotes⟩ := hemitted t ht
    exact eventsOn_emitted hjson m t.1 t.2 tx hemit hnotes (hround t ht) (hid t ht)
  rw [← hdecoded]
  exact (hcommitted.trans hdropped).map _

/-! ## Three saves of a car -/

inductive JsonText
  | null
  | string (s : String)
  | object (fields : List (String × JsonText))

def JsonText.get : JsonText → String → JsonText
  | .object fields, key => (fields.lookup key).getD .null
  | _, _ => .null

def JsonText.remove : JsonText → String → JsonText
  | .object fields, key => .object (fields.filter fun f => f.1 ≠ key)
  | v, _ => v

def JsonText.asStr : JsonText → Option String
  | .string s => some s
  | _ => none

/-- The text of a payload without anything to escape. -/
def JsonText.write (v : JsonText) : String :=
  "\x7b\"kind\":\"" ++ (v.get "kind").asStr.getD "" ++ "\",\"id\":\"" ++
    (v.get "id").asStr.getD "" ++ "\"\x7d"

/-- The payloads about the car 7. -/
def JsonText.read (text : String) : Option JsonText :=
  (["create", "save", "delete"].map fun kind =>
    JsonText.object [("kind", .string kind), ("id", .string "7")]).find? fun v => v.write = text

def carJson : SerdeJson where
  Value := JsonText
  string := JsonText.string
  object := JsonText.object
  get := JsonText.get
  remove := JsonText.remove
  asStr := JsonText.asStr
  toString := JsonText.write
  fromStr := JsonText.read

theorem carJson_lawful : carJson.Lawful where
  asStr_string _ := rfl
  get_object fields key v hkeys hmem := by
    show (fields.lookup key).getD JsonText.null = v
    rw [Select.lookup_of_mem fields hkeys key v hmem]
    rfl

/-- Cars are their numbers. -/
def cars : EventModel carJson String String where
  tableName := "cars"
  outboxExclude := []
  pkValue := id
  display := id
  toValue car := some (.object [("id", .string car)])

def carSaved : Emit String := ⟨.save, "7", true, true⟩

/-- The car is created and saved twice, then it is saved beside another model. -/
def carTxs : List (List (String × String) × List (Emit String)) :=
  [([.create, .save, .save].map fun a => cars.note (a, "7"),
      [⟨.create, "7", true, true⟩, carSaved, carSaved]),
    ([("djogi_vans", "van"), cars.note (.save, "7")], [carSaved])]

def served : World :=
  (run (parseRaw carJson) .initial (race ++ carTxs.map (fun t => Action.commit t.1) ++
    [.poll 0, .poll 0, .recv 0, .poll 0, .poll 0, .recv 0, .recv 0])).getD .initial

def servedRx : Rx := { Rx.new 0 [] with
  next := 3
  got := [.event ⟨"create", "7"⟩, .event ⟨"save", "7"⟩, .event ⟨"save", "7"⟩] }

theorem cars_emitted : ∀ t ∈ carTxs, ∃ tx, emitAll cars ⟨[], []⟩ t.2 = .ok tx ∧
    t.1.filter (fun n => n.1 = cars.channel) = tx.notes := by
  refine List.forall_mem_cons.mpr ⟨⟨_, rfl, by decide +kernel⟩, List.forall_mem_cons.mpr
    ⟨⟨_, rfl, by decide +kernel⟩, List.forall_mem_nil _⟩⟩

theorem cars_read : ∀ t ∈ carTxs, ∀ e ∈ t.2, carJson.fromStr (cars.note (cars.key e)).2 =
    some (notifyValue carJson e.action (cars.display (cars.pkValue e.row))) := by
  have hread (action : OutboxAction) : carJson.fromStr (cars.note (action, "7")).2 =
      some (notifyValue carJson action "7") := by cases action <;> rfl
  have hrow : ∀ t ∈ carTxs, ∀ e ∈ t.2, e.row = "7" := by decide +kernel
  intro t ht e he
  rw [EventModel.key, hrow t ht e he]
  exact hread e.action

theorem emitted_delivered_served :
    (carTxs.flatMap fun t => (t.2.map cars.key).eraseDups.map fun key =>
        Except.ok ⟨key.1.eventKind, key.2⟩) <:+
      (given servedRx.got).map (decodeEvent some) :=
  emitted_delivered some carJson_lawful cars (reached_run _ .initial)
    ⟨0, "djogi_cars", .receiving 0 servedRx⟩ (by decide +kernel : _ ∈ served.calls) 0 servedRx rfl
    (by decide +kernel) (by decide +kernel) carTxs (by decide +kernel) cars_emitted
    cars_read (fun _ _ _ _ => rfl)
    (by decide +kernel) (by decide +kernel) (by decide +kernel) (by simp [servedRx])

end Djogi.Notify
