import Djogi.Notify.Receivers

/-!
# What a receiver is given

The server sends what is committed, the watcher passes on what it can read, and a slow receiver
is told how much it lost.

* `delivers_step`, `delivers_reached`: what one step keeps, and what holds in every world reached;
* `events_delivered`: **every event** that is committed after `subscribe` returned is given to the
  receiver in order and once, still on its way, or counted by a lag, until the connection is gone;
  after that nothing is missing in between.
-/

namespace Djogi.Notify

variable (parseRaw : String → Option RawEvent)

/-! ## Events -/

/-- What the watcher passes on of some notifications to a channel. -/
def eventsOn (channel : String) (notes : List (String × String)) : List RawEvent :=
  notes.filterMap fun n => if n.1 = channel then parseRaw n.2 else none

theorem eventsOn_append (channel : String) (a b : List (String × String)) :
    eventsOn parseRaw channel (a ++ b) =
      eventsOn parseRaw channel a ++ eventsOn parseRaw channel b :=
  List.filterMap_append

theorem eventsOn_heard (x : Listener) (channel : String) (notes : List (String × String))
    (h : channel ∈ x.channels) :
    eventsOn parseRaw channel (x.heard notes) = eventsOn parseRaw channel notes := by
  rw [eventsOn, Listener.heard, List.filterMap_filter]
  apply List.filterMap_congr
  intro n _
  by_cases hn : n.1 = channel
  · rw [if_pos (by simpa [hn] using h)]
  · rw [if_neg hn, ite_self]

/-! ## Receivers -/

/-- Where the results of `recv` lead to, if they are what was sent from a place on. -/
def replay (sent : List RawEvent) : ℕ → List Recv → Option ℕ
  | pos, [] => some pos
  | pos, .event raw :: l => if sent[pos]? = some raw then replay sent (pos + 1) l else none
  | pos, .lagged skipped :: l => replay sent (pos + skipped) l
  | pos, .closed :: l => replay sent pos l

theorem replay_append (sent : List RawEvent) (pos : ℕ) (a b : List Recv) :
    replay sent pos (a ++ b) = (replay sent pos a).bind fun mid => replay sent mid b := by
  induction a generalizing pos with
  | nil => rfl
  | cons r a ih =>
    cases r with
    | event raw =>
      rw [List.cons_append, replay, replay]
      split
      · exact ih (pos + 1)
      · rfl
    | lagged skipped => exact ih (pos + skipped)
    | closed => exact ih pos

/-- What was sent later does not change what was given. -/
theorem replay_later (sent more : List RawEvent) (pos next : ℕ) (l : List Recv)
    (h : replay sent pos l = some next) : replay (sent ++ more) pos l = some next := by
  induction l generalizing pos with
  | nil => exact h
  | cons r l ih =>
    cases r with
    | event raw =>
      rw [replay] at h ⊢
      split_ifs at h with hget
      obtain ⟨hlt, -⟩ := List.getElem?_eq_some_iff.mp hget
      rw [if_pos (by rwa [List.getElem?_append_left hlt])]
      exact ih (pos + 1) h
    | lagged skipped => exact ih (pos + skipped) h
    | closed => exact ih pos h

/-- The results so far are what was sent through the sender. -/
structure Rx.Accounted (rx : Rx) (sent : List RawEvent) : Prop where
  replayed : replay sent rx.start rx.got = some rx.next
  next_le : rx.next ≤ sent.length
  start_le : rx.start ≤ sent.length

theorem Rx.Accounted.later {rx : Rx} {sent : List RawEvent} (h : rx.Accounted sent)
    (more : List RawEvent) : rx.Accounted (sent ++ more) := by
  have hlength : sent.length ≤ (sent ++ more).length := by simp
  exact ⟨replay_later sent more _ _ _ h.replayed, h.next_le.trans hlength,
    h.start_le.trans hlength⟩

theorem Rx.Accounted.recv {rx rx' : Rx} {sent : List RawEvent} {isOpen : Bool}
    (h : rx.Accounted sent) (hrecv : rx.recv sent isOpen = some rx') : rx'.Accounted sent := by
  have hnext := h.next_le
  have hstep (r : Recv) (next : ℕ) (hr : replay sent rx.next [r] = some next) :
      replay sent rx.start (rx.got ++ [r]) = some next := by
    rw [replay_append, h.replayed]
    exact hr
  rcases Rx.recv_eq_some hrecv with ⟨hlag, rfl⟩ | ⟨raw, hget, rfl⟩ | ⟨-, -, rfl⟩
  · refine ⟨hstep _ _ ?_, Nat.sub_le _ _, h.start_le⟩
    rw [replay, replay]
    dsimp only
    exact congrArg some (by omega)
  · obtain ⟨hlt, -⟩ := List.getElem?_eq_some_iff.mp hget
    refine ⟨hstep _ _ ?_, hlt, h.start_le⟩
    rw [replay, if_pos hget, replay]
  · exact ⟨hstep _ _ rfl, h.next_le, h.start_le⟩

/-! ## What holds between two steps -/

/-- What a receiver is to be sent: what was on its way when `LISTEN` was answered, and what was
committed since. -/
def committed (w : World) (c : Call) (rx : Rx) : List RawEvent :=
  eventsOn parseRaw c.channel (rx.ahead ++ w.journal.drop rx.since)

/-- What was sent since `LISTEN` was answered, and what is on its way. -/
def stream (w : World) (c : Call) (l : ℕ) (rx : Rx) : List RawEvent :=
  (w.sent rx.sender).drop rx.listened ++ eventsOn parseRaw c.channel (w.listeners l).inbox

/-- The connection listens on the channel, and what was committed is what was sent and what is on
its way, up to where the connection was lost. -/
structure Due (w : World) (c : Call) (l : ℕ) (rx : Rx) : Prop where
  since_le : rx.since ≤ w.journal.length
  start_le : rx.start ≤ rx.listened
  listened_le : rx.listened ≤ (w.sent rx.sender).length
  heard : (w.listeners l).watcher = .polling →
    Postgres.folded c.channel ∈ (w.listeners l).channels
  due : Postgres.folded c.channel = c.channel → ∃ lost,
    committed parseRaw w c rx = stream parseRaw w c l rx ++ lost ∧
    ((w.listeners l).watcher = .polling → lost = [])
  quiet : (w.listeners l).watcher ≠ .polling → (w.listeners l).inbox = []

structure Call.Delivers (w : World) (c : Call) : Prop where
  accounted : ∀ l rx, c.pc.link = some (l, rx) → rx.Accounted (w.sent rx.sender)
  due : ∀ l rx, c.pc = .receiving l rx → Due parseRaw w c l rx

/-- A change of the world that does not concern what the call is given. -/
structure Quiet (w w' : World) : Prop where
  journal : w'.journal = w.journal
  sent : ∀ s < w.freshSender, w'.sent s = w.sent s
  inbox : ∀ l < w.fresh, (w'.listeners l).inbox = (w.listeners l).inbox
  watcher : ∀ l < w.fresh, (w'.listeners l).watcher = .polling ↔
    (w.listeners l).watcher = .polling
  channels : ∀ l < w.fresh, ∀ ch ∈ (w.listeners l).channels, ch ∈ (w'.listeners l).channels

theorem Quiet.refl (w : World) : Quiet w w :=
  ⟨rfl, fun _ _ => rfl, fun _ _ => rfl, fun _ _ => .rfl, fun _ _ _ => id⟩

variable {parseRaw}

theorem Call.Delivers.quiet {w w' : World} {c : Call} (h : c.Delivers parseRaw w)
    (hsound : c.Sound w) (hquiet : Quiet w w') : c.Delivers parseRaw w' where
  accounted l rx hl := by
    rw [hquiet.sent _ (hsound.sender l rx hl)]
    exact h.accounted l rx hl
  due l rx hpc := by
    have hlink : c.pc.link = some (l, rx) := by rw [hpc]; rfl
    have hknown := hsound.known l (by rw [hpc]; rfl)
    have hsent := hquiet.sent _ (hsound.sender l rx hlink)
    obtain ⟨hsince, hstart, hlistened, hheard, hdue, hempty⟩ := h.due l rx hpc
    refine ⟨by rwa [hquiet.journal], hstart, by rwa [hsent], fun hp => ?_, fun hlower => ?_,
      fun hp => ?_⟩
    · exact hquiet.channels l hknown _ (hheard ((hquiet.watcher l hknown).mp hp))
    · obtain ⟨lost, hsplit, hlost⟩ := hdue hlower
      refine ⟨lost, ?_, fun hp => hlost ((hquiet.watcher l hknown).mp hp)⟩
      rwa [committed, stream, hquiet.journal, hsent, hquiet.inbox l hknown]
    · rw [hquiet.inbox l hknown]
      exact hempty fun hpolling => hp ((hquiet.watcher l hknown).mpr hpolling)

/-- A call without a receiver. -/
theorem Call.Delivers.of_unlinked {w : World} {c : Call} (hlink : c.pc.link = none) :
    c.Delivers parseRaw w where
  accounted l rx h := by rw [hlink] at h; cases h
  due l rx h := by rw [h] at hlink; cases hlink

theorem quiet_setListener {w : World} (l : ℕ) (x : Listener)
    (hinbox : x.inbox = (w.listeners l).inbox)
    (hwatcher : x.watcher = .polling ↔ (w.listeners l).watcher = .polling)
    (hchannels : ∀ ch ∈ (w.listeners l).channels, ch ∈ x.channels) :
    Quiet w (w.setListener l x) := by
  refine ⟨rfl, fun _ _ => rfl, fun l' _ => ?_, fun l' _ => ?_, fun l' _ ch hch => ?_⟩ <;>
    by_cases hl : l' = l
  · subst hl
    rw [w.setListener_self, hinbox]
  · rw [w.setListener_of_ne l x hl]
  · subst hl
    rwa [w.setListener_self]
  · rw [w.setListener_of_ne l x hl]
  · subst hl
    rw [w.setListener_self]
    exact hchannels ch hch
  · rwa [w.setListener_of_ne l x hl]

theorem quiet_addSender (w : World) (l : ℕ) (channel : String) :
    Quiet w (w.addSender l channel) := by
  have hbase := quiet_setListener (w := w) l { w.listeners l with
    senders := Function.update (w.listeners l).senders channel (some w.freshSender) } rfl .rfl
    fun _ => id
  exact ⟨rfl, fun s hs => Function.update_of_ne (Nat.ne_of_lt hs) _ _, hbase.inbox, hbase.watcher,
    hbase.channels⟩

theorem quiet_spawn (w : World) :
    Quiet w { w.setListener w.fresh .spawned with fresh := w.fresh + 1 } := by
  have hsame (l : ℕ) (hl : l < w.fresh) :
      (w.setListener w.fresh .spawned).listeners l = w.listeners l :=
    w.setListener_of_ne _ _ (Nat.ne_of_lt hl)
  refine ⟨rfl, fun _ _ => rfl, fun l hl => ?_, fun l hl => ?_, fun l hl ch hch => ?_⟩ <;>
    dsimp only
  · rw [hsame l hl]
  · rw [hsame l hl]
  · rwa [hsame l hl]

theorem quiet_setSlot (w : World) (pool : ℕ) (slot : Option ℕ) : Quiet w (w.setSlot pool slot) :=
  ⟨rfl, fun _ _ => rfl, fun _ _ => rfl, fun _ _ => .rfl, fun _ _ _ => id⟩

theorem quiet_removeIfCurrent (w : World) (pool l : ℕ) :
    Quiet w (removeIfCurrent w pool l).1 := by
  unfold removeIfCurrent
  dsimp only
  cases w.upgrade pool with
  | some current =>
    by_cases hcurrent : current = l
    · simp only [hcurrent, decide_true, if_true]
      exact quiet_setSlot w pool none
    · simp only [hcurrent, decide_false, Bool.false_eq_true, if_false]
      exact .refl w
  | none =>
    cases w.registry pool with
    | some dangling => exact quiet_setSlot w pool none
    | none => exact .refl w

/-- The step of a call is quiet for the others, and gives it a receiver from now on. -/
theorem runCall_delivers {w w' : World} {c : Call} {ok : Bool} {pc : Pc}
    (hdelivers : c.Delivers parseRaw w)
    (hrun : runCall w c ok = some (w', pc)) :
    Quiet w w' ∧ Call.Delivers parseRaw w' { c with pc } := by
  cases hpc : c.pc with
  | lookup =>
    simp only [runCall, hpc, upgradeExisting] at hrun
    cases hup : w.upgrade c.pool <;> rw [hup] at hrun <;> cases hrun
    · exact ⟨quiet_setSlot w _ _, .of_unlinked rfl⟩
    · exact ⟨.refl w, .of_unlinked rfl⟩
  | found l =>
    rw [runCall, hpc] at hrun
    cases hrun
    refine ⟨.refl w, ?_⟩
    split <;> exact .of_unlinked rfl
  | reap l =>
    simp only [runCall, hpc] at hrun
    have hquiet := quiet_removeIfCurrent w c.pool l
    generalize removeIfCurrent w c.pool l = r at hquiet hrun
    cases hrun
    refine ⟨hquiet, .of_unlinked ?_⟩
    cases r.2 <;> rfl
  | spawn =>
    rw [runCall, hpc] at hrun
    cases ok <;> cases hrun
    · exact ⟨.refl w, .of_unlinked rfl⟩
    · exact ⟨quiet_spawn w, .of_unlinked rfl⟩
  | install l =>
    simp only [runCall, hpc, installOrLose] at hrun
    cases hup : w.upgrade c.pool <;> rw [hup] at hrun <;> cases hrun
    · exact ⟨quiet_setSlot w _ _, .of_unlinked rfl⟩
    · exact ⟨.refl w, .of_unlinked rfl⟩
  | obtained l =>
    rw [runCall, hpc] at hrun
    cases hrun
    refine ⟨.refl w, .of_unlinked ?_⟩
    dsimp only
    split_ifs <;> rfl
  | insert l =>
    simp only [runCall, hpc] at hrun
    cases hrun
    cases hsender : (w.listeners l).senders c.channel with
    | some s =>
      rw [subscribeSender_some hsender]
      refine ⟨.refl w, fun l' rx hl => ?_, fun _ _ hpc => by cases hpc⟩
      obtain ⟨rfl, rfl⟩ := Prod.mk.inj (Option.some.inj hl)
      exact ⟨rfl, le_rfl, le_rfl⟩
    | none =>
      rw [subscribeSender_none hsender]
      refine ⟨quiet_addSender w l c.channel, fun l' rx hl => ?_, fun _ _ hpc => by cases hpc⟩
      obtain ⟨rfl, rfl⟩ := Prod.mk.inj (Option.some.inj hl)
      exact ⟨rfl, Nat.zero_le _, Nat.zero_le _⟩
  | recheck l rx =>
    rw [runCall, hpc] at hrun
    cases hrun
    refine ⟨.refl w, ?_⟩
    split
    · exact .of_unlinked rfl
    · exact ⟨fun l' rx' hl => hdelivers.accounted l' rx' (by rw [hpc]; exact hl),
        fun _ _ hpc => by cases hpc⟩
  | cleanup l =>
    rw [runCall, hpc] at hrun
    cases hrun
    exact ⟨quiet_setListener l _ rfl .rfl fun _ => id, .of_unlinked rfl⟩
  | listen l rx =>
    simp only [runCall, hpc] at hrun
    split_ifs at hrun with hanswer
    · cases hrun
      simp only [Bool.and_eq_true, decide_eq_true_eq] at hanswer
      have haccounted := hdelivers.accounted l rx (by rw [hpc]; rfl)
      refine ⟨quiet_setListener l _ rfl .rfl fun _ => List.mem_cons_of_mem _,
        fun l' rx' hl => ?_, fun l' rx' hl => ?_⟩
      · obtain ⟨rfl, rfl⟩ := Prod.mk.inj (Option.some.inj hl)
        exact ⟨haccounted.replayed, haccounted.next_le, haccounted.start_le⟩
      · obtain ⟨rfl, rfl⟩ := Pc.receiving.inj hl
        refine ⟨le_rfl, haccounted.start_le, le_rfl, fun _ => ?_, fun _ => ⟨[], ?_, fun _ => rfl⟩,
          fun hp => ?_⟩
        · rw [w.setListener_self]
          exact List.mem_cons_self
        · -- nothing was sent or committed since
          rw [committed, stream, w.setListener_self, List.append_nil]
          show eventsOn parseRaw c.channel ((w.listeners l).inbox ++
              w.journal.drop w.journal.length) =
            (w.sent rx.sender).drop (w.sent rx.sender).length ++
              eventsOn parseRaw c.channel (w.listeners l).inbox
          rw [List.drop_length, List.drop_length, List.append_nil, List.nil_append]
        · rw [w.setListener_self] at hp
          exact absurd hanswer.2 hp
    · cases hrun
      exact ⟨.refl w, .of_unlinked rfl⟩
  | receiving l rx =>
    rw [runCall, hpc] at hrun
    cases hrun
  | failed e =>
    rw [runCall, hpc] at hrun
    cases hrun
  | dropped =>
    rw [runCall, hpc] at hrun
    cases hrun

/-! ## Commits, polls and the end of a connection -/

theorem Call.Delivers.commit {w : World} {c : Call} (h : c.Delivers parseRaw w)
    (notes : List (String × String)) :
    c.Delivers parseRaw { w with
      journal := w.journal ++ notes
      listeners := fun l =>
        if (w.listeners l).watcher = .polling then
          { w.listeners l with inbox := (w.listeners l).inbox ++ (w.listeners l).heard notes }
        else w.listeners l } where
  accounted := h.accounted
  due l rx hpc := by
    obtain ⟨hsince, hstart, hlistened, hheard, hdue, hempty⟩ := h.due l rx hpc
    have hdrop : (w.journal ++ notes).drop rx.since = w.journal.drop rx.since ++ notes :=
      List.drop_append_of_le_length hsince
    refine ⟨by simpa using Nat.le_add_right_of_le hsince, hstart, hlistened, fun hp => ?_,
      fun hlower => ?_, fun hp => ?_⟩ <;> dsimp only at *
    · split at hp
      · rw [if_pos ‹_›]
        exact hheard ‹_›
      · exact absurd hp ‹_›
    · obtain ⟨lost, hsplit, hlost⟩ := hdue hlower
      have hgrown : eventsOn parseRaw c.channel (rx.ahead ++ (w.journal ++ notes).drop rx.since) =
          stream parseRaw w c l rx ++ lost ++ eventsOn parseRaw c.channel notes := by
        rw [hdrop, ← List.append_assoc, eventsOn_append, ← hsplit]
        rfl
      by_cases hp : (w.listeners l).watcher = .polling
      · refine ⟨[], ?_, fun _ => rfl⟩
        have hchannel : c.channel ∈ (w.listeners l).channels := hlower ▸ hheard hp
        refine hgrown.trans ?_
        rw [hlost hp, List.append_nil, List.append_nil, stream, stream]
        dsimp only
        rw [if_pos hp]
        dsimp only
        rw [eventsOn_append, eventsOn_heard parseRaw _ _ _ hchannel, List.append_assoc]
      · refine ⟨lost ++ eventsOn parseRaw c.channel notes, ?_, ?_⟩
        · refine hgrown.trans ?_
          rw [stream, stream]
          dsimp only
          rw [if_neg hp, List.append_assoc]
        · rw [if_neg hp]
          exact fun hpolling => absurd hpolling hp
    · split at hp
      · exact absurd ‹_› hp
      · rw [if_neg ‹_›]
        exact hempty ‹_›

/-- What was sent grows, and with what is on its way it stays the same. -/
theorem Call.Delivers.moveOn {w w' : World} {c : Call} (h : c.Delivers parseRaw w)
    (hjournal : w'.journal = w.journal)
    (hwatcher : ∀ l, (w'.listeners l).watcher = (w.listeners l).watcher)
    (hchannels : ∀ l, (w'.listeners l).channels = (w.listeners l).channels)
    (hinbox : ∀ l, (w.listeners l).watcher ≠ .polling →
      (w'.listeners l).inbox = (w.listeners l).inbox)
    (hsent : ∀ s, ∃ more, w'.sent s = w.sent s ++ more)
    (hstream : ∀ l rx, c.pc = .receiving l rx →
      stream parseRaw w' c l rx = stream parseRaw w c l rx) : c.Delivers parseRaw w' where
  accounted l rx hl := by
    obtain ⟨more, hmore⟩ := hsent rx.sender
    rw [hmore]
    exact (h.accounted l rx hl).later more
  due l rx hpc := by
    obtain ⟨hsince, hstart, hlistened, hheard, hdue, hempty⟩ := h.due l rx hpc
    refine ⟨by rwa [hjournal], hstart, ?_, fun hp => ?_, fun hlower => ?_, fun hp => ?_⟩
    · obtain ⟨more, hmore⟩ := hsent rx.sender
      rw [hmore, List.length_append]
      exact Nat.le_add_right_of_le hlistened
    · rw [hchannels]
      exact hheard (by rwa [hwatcher] at hp)
    · obtain ⟨lost, hsplit, hlost⟩ := hdue hlower
      refine ⟨lost, ?_, fun hp => hlost (by rwa [hwatcher] at hp)⟩
      rwa [committed, hjournal, hstream l rx hpc]
    · rw [hwatcher] at hp
      rw [hinbox l hp]
      exact hempty hp

theorem send_sent (w : World) (s : ℕ) (raw : RawEvent) (s' : ℕ) :
    ∃ more, (w.send s raw).sent s' = w.sent s' ++ more ∧ (s' ≠ s → more = []) := by
  unfold World.send
  split
  · by_cases hs : s' = s
    · subst hs
      exact ⟨[raw], Function.update_self .., fun hne => absurd rfl hne⟩
    · exact ⟨[], by rw [List.append_nil]; exact Function.update_of_ne hs .., fun _ => rfl⟩
  · exact ⟨[], (List.append_nil _).symm, fun _ => rfl⟩

/-- A send is kept if a call receives it. -/
theorem send_receiving {w : World} {c : Call} {l : ℕ} {rx : Rx} (hc : c ∈ w.calls)
    (hpc : c.pc = .receiving l rx) (raw : RawEvent) :
    (w.send rx.sender raw).sent rx.sender = w.sent rx.sender ++ [raw] := by
  have hany : (w.calls.any fun c => c.pc.rx.any fun rx' => rx'.sender = rx.sender) = true := by
    refine List.any_eq_true.mpr ⟨c, hc, ?_⟩
    rw [hpc]
    exact decide_eq_true rfl
  rw [World.send, if_pos hany]
  exact Function.update_self ..

/-- The world after the head of an inbox is taken. -/
theorem Call.Delivers.polled {w : World} {c : Call} (h : c.Delivers parseRaw w)
    (hsound : c.Sound w) (hc : c ∈ w.calls) {l : ℕ} {channel payload : String}
    {rest : List (String × String)} (hpolling : (w.listeners l).watcher = .polling)
    (hinbox : (w.listeners l).inbox = (channel, payload) :: rest) :
    let w₁ := w.setListener l { w.listeners l with inbox := rest }
    c.Delivers parseRaw (match parseRaw payload, (w.listeners l).senders channel with
      | some raw, some s => w₁.send s raw
      | _, _ => w₁) := by
  intro w₁
  have hother {l' : ℕ} (hl : l' ≠ l) : w₁.listeners l' = w.listeners l' :=
    w.setListener_of_ne l _ hl
  have hself : w₁.listeners l = { w.listeners l with inbox := rest } := w.setListener_self l _
  have hsame (l' : ℕ) : (w₁.listeners l').watcher = (w.listeners l').watcher ∧
      (w₁.listeners l').channels = (w.listeners l').channels ∧
      ((w.listeners l').watcher ≠ .polling →
        (w₁.listeners l').inbox = (w.listeners l').inbox) := by
    by_cases hl : l' = l
    · subst hl
      rw [hself]
      exact ⟨rfl, rfl, fun hp => absurd hpolling hp⟩
    · rw [hother hl]
      exact ⟨rfl, rfl, fun _ => rfl⟩
  -- Whoever receives on this channel of this listener has its sender.
  have hmine (rx : Rx) (hpc : c.pc = .receiving l rx) (hchannel : channel = c.channel) :
      (w.listeners l).senders channel = some rx.sender := by
    rw [hchannel]
    refine hsound.opened l rx (by rw [hpc]; rfl) ?_
    rw [Listener.IsCleared, hpolling]
    rintro (hp | hp) <;> cases hp
  have hothers (l' : ℕ) (rx : Rx) (hpc : c.pc = .receiving l' rx) (s : ℕ)
      (hs : (w.listeners l).senders channel = some s) (hne : l' ≠ l ∨ channel ≠ c.channel) :
      rx.sender ≠ s := by
    rintro rfl
    obtain ⟨rfl, hch⟩ := hsound.home l' rx (by rw [hpc]; rfl) l channel hs
    exact hne.elim (fun hl => hl rfl) fun hchannel => hchannel hch
  have hskip (hskip : channel ≠ c.channel ∨ parseRaw payload = none) :
      eventsOn parseRaw c.channel (w.listeners l).inbox = eventsOn parseRaw c.channel rest := by
    rw [hinbox, eventsOn, List.filterMap_cons_none, eventsOn]
    rcases hskip with hne | hnone
    · exact if_neg hne
    · dsimp only
      rw [hnone, ite_self]
  split
  · rename_i raw s hraw hs
    obtain ⟨-, -, hlisteners, -, -, hjournal⟩ := send_eq w₁ s raw
    refine h.moveOn hjournal (fun l' => ?_) (fun l' => ?_) (fun l' => ?_) (fun s' => ?_)
      fun l' rx hpc => ?_
    · rw [hlisteners]
      exact (hsame l').1
    · rw [hlisteners]
      exact (hsame l').2.1
    · rw [hlisteners]
      exact (hsame l').2.2
    · obtain ⟨more, hmore, -⟩ := send_sent w₁ s raw s'
      exact ⟨more, hmore⟩
    · rw [stream, stream, hlisteners]
      by_cases hl : l' = l
      · subst hl
        by_cases hchannel : channel = c.channel
        · obtain rfl := Option.some.inj ((hmine rx hpc hchannel).symm.trans hs)
          have hlistened : rx.listened ≤ (w.sent rx.sender).length :=
            (h.due l' rx hpc).listened_le
          have hhead : eventsOn parseRaw c.channel (w.listeners l').inbox =
              raw :: eventsOn parseRaw c.channel rest := by
            rw [hinbox, eventsOn, List.filterMap_cons_some (b := raw), eventsOn]
            rw [if_pos hchannel]
            exact hraw
          have happended : (w₁.send rx.sender raw).sent rx.sender = w.sent rx.sender ++ [raw] :=
            send_receiving (w := w₁) hc hpc raw
          rw [happended, hself, hhead, List.drop_append_of_le_length hlistened,
            List.append_assoc]
          rfl
        · obtain ⟨more, hmore, hnil⟩ := send_sent w₁ s raw rx.sender
          rw [hmore, hnil (hothers l' rx hpc s hs (.inr hchannel)), List.append_nil, hself,
            hskip (.inl hchannel)]
          rfl
      · obtain ⟨more, hmore, hnil⟩ := send_sent w₁ s raw rx.sender
        rw [hmore, hnil (hothers l' rx hpc s hs (.inl hl)), List.append_nil, hother hl]
        rfl
  · rename_i hnot
    refine h.moveOn rfl (fun l' => (hsame l').1) (fun l' => (hsame l').2.1)
      (fun l' => (hsame l').2.2) (fun s' => ⟨[], (List.append_nil _).symm⟩) fun l' rx hpc => ?_
    rw [stream, stream]
    by_cases hl : l' = l
    · subst hl
      rw [hself, hskip]
      · rfl
      · by_cases hchannel : channel = c.channel
        · cases hraw : parseRaw payload with
          | none => exact .inr rfl
          | some raw => exact (hnot raw _ hraw (hmine rx hpc hchannel)).elim
        · exact .inl hchannel
    · rw [hother hl]
      rfl

/-- What was on its way is lost with the connection. -/
theorem Call.Delivers.hungUp {w : World} {c : Call} (h : c.Delivers parseRaw w) (l : ℕ)
    (hpolling : (w.listeners l).watcher = .polling) :
    c.Delivers parseRaw
      (w.setListener l { w.listeners l with watcher := .hungUp, inbox := [] }) where
  accounted := h.accounted
  due l' rx hpc := by
    obtain ⟨hsince, hstart, hlistened, hheard, hdue, hempty⟩ := h.due l' rx hpc
    by_cases hl : l' = l
    · subst hl
      have hself := w.setListener_self l' { w.listeners l' with watcher := .hungUp, inbox := [] }
      refine ⟨hsince, hstart, hlistened, fun hp => ?_, fun hlower => ?_, fun _ => ?_⟩
      · rw [hself] at hp
        cases hp
      · obtain ⟨lost, hsplit, hlost⟩ := hdue hlower
        rw [hlost hpolling, List.append_nil] at hsplit
        -- what was on its way is lost
        refine ⟨eventsOn parseRaw c.channel (w.listeners l').inbox, ?_, fun hp => ?_⟩
        · refine hsplit.trans ?_
          rw [stream, stream, hself]
          exact (congrArg (· ++ _) (List.append_nil _)).symm
        · rw [hself] at hp
          cases hp
      · rw [hself]
    · have hother := w.setListener_of_ne l { w.listeners l with watcher := .hungUp, inbox := [] } hl
      refine ⟨hsince, hstart, hlistened, fun hp => ?_, fun hlower => ?_, fun hp => ?_⟩
      · rw [hother] at hp ⊢
        exact hheard hp
      · obtain ⟨lost, hsplit, hlost⟩ := hdue hlower
        refine ⟨lost, ?_, fun hp => hlost (by rwa [hother] at hp)⟩
        refine hsplit.trans ?_
        rw [stream, stream, hother]
        rfl
      · rw [hother] at hp ⊢
        exact hempty hp

/-! ## Every step -/

theorem Rx.recv_place {rx rx' : Rx} {sent : List RawEvent} {isOpen : Bool}
    (h : rx.recv sent isOpen = some rx') :
    rx'.start = rx.start ∧ rx'.since = rx.since ∧ rx'.listened = rx.listened ∧
      rx'.ahead = rx.ahead := by
  rcases Rx.recv_eq_some h with ⟨-, rfl⟩ | ⟨raw, -, rfl⟩ | ⟨-, -, rfl⟩ <;>
    exact ⟨rfl, rfl, rfl, rfl⟩

theorem Call.Delivers.received {w : World} {c : Call} (h : c.Delivers parseRaw w) {l : ℕ}
    {rx rx' : Rx} {isOpen : Bool} (hpc : c.pc = .receiving l rx)
    (hrecv : rx.recv (w.sent rx.sender) isOpen = some rx') :
    Call.Delivers parseRaw w { c with pc := .receiving l rx' } := by
  have hsender := Rx.recv_sender hrecv
  obtain ⟨hstart, hsince, hlistened, hahead⟩ := Rx.recv_place hrecv
  refine ⟨fun l' rx₁ hl => ?_, fun l' rx₁ hl => ?_⟩
  · obtain ⟨rfl, rfl⟩ := Prod.mk.inj (Option.some.inj hl)
    rw [hsender]
    exact (h.accounted l rx (by rw [hpc]; rfl)).recv hrecv
  · obtain ⟨rfl, rfl⟩ := Pc.receiving.inj hl
    obtain ⟨hle, hfrom, hsent, hheard, hdue, hempty⟩ := h.due l rx hpc
    refine ⟨hsince ▸ hle, ?_, ?_, hheard, fun hlower => ?_, hempty⟩
    · rwa [hstart, hlistened]
    · rwa [hlistened, hsender]
    · obtain ⟨lost, hsplit, hlost⟩ := hdue hlower
      refine ⟨lost, ?_, hlost⟩
      rw [committed, stream] at hsplit ⊢
      rwa [hahead, hsince, hsender, hlistened]

theorem quiet_setCall (w : World) (i : ℕ) (c : Call) : Quiet w (w.setCall i c) :=
  ⟨rfl, fun _ _ => rfl, fun _ _ => rfl, fun _ _ => .rfl, fun _ _ _ => id⟩

/-- One call is put in the place of another. -/
theorem delivers_setCall {w w' : World} {c' : Call} (hcalls : w'.calls = w.calls)
    (hold : ∀ c ∈ w.calls, c.Delivers parseRaw w' ∧ c.Sound w')
    (hnew : c'.Delivers parseRaw w') (hsound : c'.Sound w') (i : ℕ) :
    ∀ c ∈ (w'.setCall i c').calls, c.Delivers parseRaw (w'.setCall i c') := by
  intro c hc
  rcases List.mem_or_eq_of_mem_set hc with hmem | rfl
  · rw [hcalls] at hmem
    exact (hold c hmem).1.quiet (hold c hmem).2 (quiet_setCall w' i c')
  · exact hnew.quiet hsound (quiet_setCall w' i c)

theorem delivers_step {w w' : World} (a : Action) (hsound : Sound w)
    (h : ∀ c ∈ w.calls, c.Delivers parseRaw w) (hstep : step parseRaw w a = some w') :
    ∀ c ∈ w'.calls, c.Delivers parseRaw w' := by
  have hstay := fun c hc => And.intro (h c hc) (hsound.calls c hc)
  cases a with
  | call pool channel =>
    obtain rfl := Option.some.inj hstep
    intro c hc
    rcases List.mem_append.mp hc with hold | hnew
    · exact (h c hold).quiet (hsound.calls c hold)
        ⟨rfl, fun _ _ => rfl, fun _ _ => rfl, fun _ _ => .rfl, fun _ _ _ => id⟩
    · obtain rfl := List.mem_singleton.mp hnew
      exact .of_unlinked rfl
  | run i ok =>
    obtain ⟨c, hi, hstep⟩ := Option.bind_eq_some_iff.mp hstep
    obtain ⟨⟨w₁, pc⟩, hrun, hstep⟩ := Option.bind_eq_some_iff.mp hstep
    obtain rfl := Option.some.inj hstep
    have hc := List.mem_of_getElem? hi
    have hstepped := runCall_stepped hsound hc hrun
    obtain ⟨hquiet, hnew⟩ := runCall_delivers (h c hc) hrun
    exact delivers_setCall hstepped.calls
      (fun d hd => ⟨(h d hd).quiet (hsound.calls d hd) hquiet,
        (hsound.calls d hd).keep (hstepped.keeps d hd)⟩) hnew hstepped.call i
  | drop i =>
    obtain ⟨c, -, hstep⟩ := Option.bind_eq_some_iff.mp hstep
    split_ifs at hstep
    obtain rfl := Option.some.inj hstep
    exact delivers_setCall rfl hstay (.of_unlinked rfl) (.of_empty rfl rfl) i
  | recv i =>
    obtain ⟨c, hi, hstep⟩ := Option.bind_eq_some_iff.mp hstep
    have hc := List.mem_of_getElem? hi
    cases hpc : c.pc with
    | receiving l rx =>
      rw [hpc] at hstep
      obtain ⟨rx', hrecv, hstep⟩ := Option.bind_eq_some_iff.mp hstep
      obtain rfl := Option.some.inj hstep
      exact delivers_setCall rfl hstay ((h c hc).received hpc hrecv)
        ((hsound.calls c hc).moved hpc (Rx.recv_sender hrecv)) i
    | _ =>
      rw [hpc] at hstep
      cases hstep
  | hangUp l =>
    simp only [step] at hstep
    split_ifs at hstep with hwatcher
    obtain rfl := Option.some.inj hstep
    exact fun c hc => (h c hc).hungUp l hwatcher
  | clear l =>
    simp only [step] at hstep
    split_ifs at hstep with hwatcher
    obtain rfl := Option.some.inj hstep
    refine fun c hc => (h c hc).quiet (hsound.calls c hc) (quiet_setListener l _ rfl ?_ fun _ => id)
    rw [hwatcher]
    exact iff_of_false (fun hp => by cases hp) (fun hp => by cases hp)
  | publish l =>
    simp only [step] at hstep
    split_ifs at hstep with hwatcher
    obtain rfl := Option.some.inj hstep
    refine fun c hc => (h c hc).quiet (hsound.calls c hc) (quiet_setListener l _ rfl ?_ fun _ => id)
    rw [hwatcher]
    exact iff_of_false (fun hp => by cases hp) (fun hp => by cases hp)
  | commit notes =>
    obtain rfl := Option.some.inj hstep
    exact fun c hc => (h c hc).commit notes.eraseDups
  | poll l =>
    simp only [step] at hstep
    split_ifs at hstep with hwatcher
    cases hinbox : (w.listeners l).inbox with
    | nil =>
      rw [hinbox] at hstep
      cases hstep
    | cons note rest =>
      obtain ⟨channel, payload⟩ := note
      rw [hinbox] at hstep
      intro c hc
      have hbefore : c ∈ w.calls := by
        dsimp only at hstep
        split at hstep
        · obtain rfl := Option.some.inj hstep
          rwa [(send_eq _ _ _).1] at hc
        · obtain rfl := Option.some.inj hstep
          exact hc
      have hpolled := (h c hbefore).polled (hsound.calls c hbefore) hbefore hwatcher hinbox
      dsimp only at hstep hpolled
      cases hraw : parseRaw payload <;> cases hs : (w.listeners l).senders channel <;>
        rw [hraw, hs] at hstep hpolled <;> obtain rfl := Option.some.inj hstep <;> exact hpolled

theorem delivers_reached {w : World} (h : Reached parseRaw w) :
    ∀ c ∈ w.calls, c.Delivers parseRaw w := by
  induction h with
  | initial => exact fun _ hc => absurd hc List.not_mem_nil
  | step w w' a hreached hstep ih => exact delivers_step a (sound_reached hreached) ih hstep

/-! ## Results -/

/-- The events that the receiver was given. -/
def given : List Recv → List RawEvent
  | [] => []
  | .event raw :: got => raw :: given got
  | .lagged _ :: got => given got
  | .closed :: got => given got

/-- The events that it was told it has lost. -/
def skipped : List Recv → ℕ
  | [] => 0
  | .event _ :: got => skipped got
  | .lagged n :: got => n + skipped got
  | .closed :: got => skipped got

theorem replay_length (sent : List RawEvent) (pos next : ℕ) (got : List Recv)
    (h : replay sent pos got = some next) : pos + (given got).length + skipped got = next := by
  induction got generalizing pos with
  | nil => exact Option.some.inj h
  | cons r got ih =>
    cases r with
    | event raw =>
      rw [replay] at h
      split_ifs at h
      have hrest := ih (pos + 1) h
      rw [given, skipped, List.length_cons]
      omega
    | lagged n =>
      have hrest := ih (pos + n) h
      rw [given, skipped]
      omega
    | closed => exact ih pos h

theorem replay_sublist (sent : List RawEvent) (pos next : ℕ) (got : List Recv)
    (h : replay sent pos got = some next) : (given got).Sublist (sent.drop pos) := by
  induction got generalizing pos with
  | nil => exact List.nil_sublist _
  | cons r got ih =>
    cases r with
    | event raw =>
      rw [replay] at h
      split_ifs at h with hget
      obtain ⟨hlt, hraw⟩ := List.getElem?_eq_some_iff.mp hget
      rw [List.drop_eq_getElem_cons hlt, hraw]
      exact (ih (pos + 1) h).cons_cons raw
    | lagged n =>
      refine (ih (pos + n) h).trans ?_
      rw [← List.drop_drop]
      exact List.drop_sublist n _
    | closed => exact ih pos h

theorem replay_unlagged (sent : List RawEvent) (pos next : ℕ) (got : List Recv)
    (h : replay sent pos got = some next) (hlag : ∀ n, .lagged n ∉ got) :
    given got ++ sent.drop next = sent.drop pos := by
  induction got generalizing pos with
  | nil => rw [Option.some.inj h]; rfl
  | cons r got ih =>
    have hrest (n : ℕ) : .lagged n ∉ got := fun hmem => hlag n (List.mem_cons_of_mem r hmem)
    cases r with
    | event raw =>
      rw [replay] at h
      split_ifs at h with hget
      obtain ⟨hlt, hraw⟩ := List.getElem?_eq_some_iff.mp hget
      rw [List.drop_eq_getElem_cons hlt, hraw]
      exact congrArg (raw :: ·) (ih (pos + 1) h hrest)
    | lagged n => exact absurd List.mem_cons_self (hlag n)
    | closed => exact ih pos h hrest

/-- **Every event is accounted for.** A receiver is given what was sent through its channel in
order and once, and is told how many it lost. What was committed since `subscribe` returned is what
was sent since and what is on its way, as long as the connection is there; when it is gone nothing
is on its way, and what was sent is the first part of it, with no gap. -/
theorem events_delivered {w : World} (h : Reached parseRaw w) (c : Call) (hc : c ∈ w.calls)
    (l : ℕ) (rx : Rx) (hpc : c.pc = .receiving l rx)
    (hlower : Postgres.folded c.channel = c.channel) :
    let sent := w.sent rx.sender
    let waiting := eventsOn parseRaw c.channel (w.listeners l).inbox
    let committed := eventsOn parseRaw c.channel (rx.ahead ++ w.journal.drop rx.since)
    ((given rx.got).Sublist (sent.drop rx.start) ∧
        rx.start + (given rx.got).length + skipped rx.got = rx.next ∧ rx.next ≤ sent.length ∧
        ((∀ n, .lagged n ∉ rx.got) → given rx.got ++ sent.drop rx.next = sent.drop rx.start)) ∧
      (rx.start ≤ rx.listened ∧ rx.listened ≤ sent.length) ∧
      ((w.listeners l).watcher = .polling → sent.drop rx.listened ++ waiting = committed) ∧
      ((w.listeners l).watcher ≠ .polling →
        waiting = [] ∧ sent.drop rx.listened <+: committed) := by
  intro sent waiting committed
  have hdelivers := delivers_reached h c hc
  obtain ⟨hreplayed, hnext, -⟩ := hdelivers.accounted l rx (by rw [hpc]; rfl)
  obtain ⟨-, hstart, hlistened, -, hdue, hquiet⟩ := hdelivers.due l rx hpc
  obtain ⟨lost, hsplit, hlost⟩ := hdue hlower
  have hcommitted : committed = sent.drop rx.listened ++ waiting ++ lost := hsplit
  refine ⟨⟨replay_sublist _ _ _ _ hreplayed, replay_length _ _ _ _ hreplayed, hnext,
    replay_unlagged _ _ _ _ hreplayed⟩, ⟨hstart, hlistened⟩, fun hp => ?_, fun hp => ?_⟩
  · rw [hcommitted, hlost hp, List.append_nil]
  · have hwaiting : waiting = [] := congrArg (eventsOn parseRaw c.channel) (hquiet hp)
    rw [hwaiting, List.append_nil] at hcommitted
    exact ⟨hwaiting, lost, hcommitted.symm⟩

/-- Two cars are created; the subscriber is given the first event, and the connection is lost. -/
def noticed : World :=
  (run carParse raced [.commit [("djogi_cars", carPayload)], .commit [("djogi_cars", carPayload)],
    .poll 0, .recv 0, .hangUp 0]).getD raced

def carRx : Rx := { Rx.new 0 [] with next := 1, got := [.event ⟨"create", "7"⟩] }

theorem events_delivered_noticed :
    let sent := noticed.sent 0
    let waiting := eventsOn carParse "djogi_cars" (noticed.listeners 0).inbox
    let committed := eventsOn carParse "djogi_cars" ([] ++ noticed.journal.drop 0)
    ((given carRx.got).Sublist (sent.drop 0) ∧
        0 + (given carRx.got).length + skipped carRx.got = 1 ∧ 1 ≤ sent.length ∧
        ((∀ n, .lagged n ∉ carRx.got) → given carRx.got ++ sent.drop 1 = sent.drop 0)) ∧
      (0 ≤ 0 ∧ 0 ≤ sent.length) ∧
      ((noticed.listeners 0).watcher = .polling → sent.drop 0 ++ waiting = committed) ∧
      ((noticed.listeners 0).watcher ≠ .polling → waiting = [] ∧ sent.drop 0 <+: committed) :=
  events_delivered (reached_run _ raced_reached) ⟨0, "djogi_cars", .receiving 0 carRx⟩
    (by decide +kernel) 0 carRx rfl (by decide +kernel)

end Djogi.Notify
