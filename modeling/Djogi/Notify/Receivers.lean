import Djogi.Notify.Listener

/-!
# No receiver waits for a dead listener

What holds between any two steps of the calls, the watchers and the server.

* `sound_step`, `sound_reached`: what one step keeps, and what holds in every world reached;
* `receiver_never_hangs`: **a receiver that was returned** has an open channel until the watcher
  lets go of it, and is closed from then on, whoever subscribes to the dead listener;
* `canonical_listener`: **one healthy listener a pool**: two receivers of a pool have the same
  listener unless one of the two has failed, and it is the registered one.
-/

namespace Djogi.Notify

/-! ## What holds between two steps -/

/-- The watcher has emptied the senders. -/
def Listener.IsCleared (x : Listener) : Prop := x.watcher = .cleared ∨ x.watcher = .exited

/-- The listener that came out of the registry. -/
def Pc.obtains : Pc → Option ℕ
  | .found l | .obtained l | .insert l | .cleanup l => some l
  | .recheck l _ | .listen l _ | .receiving l _ => some l
  | _ => none

/-- The listener that was seen to have failed. -/
def Pc.blames : Pc → Option ℕ
  | .reap l | .cleanup l => some l
  | _ => none

/-- The listener and the receiver. -/
def Pc.link : Pc → Option (ℕ × Rx)
  | .recheck l rx | .listen l rx | .receiving l rx => some (l, rx)
  | _ => none

structure World.Sound (w : World) : Prop where
  slot : ∀ pool l, w.registry pool = some l → l < w.fresh
  exited : ∀ l, (w.listeners l).failed = true ↔ (w.listeners l).watcher = .exited
  known : ∀ l ch s, (w.listeners l).senders ch = some s → s < w.freshSender
  once : ∀ l ch l' ch' s, (w.listeners l).senders ch = some s →
    (w.listeners l').senders ch' = some s → l = l' ∧ ch = ch'

structure Call.Sound (w : World) (c : Call) : Prop where
  known : ∀ l, c.pc.holds = some l → l < w.fresh
  canonical : ∀ l, c.pc.obtains = some l →
    (w.listeners l).failed = true ∨ w.registry c.pool = some l
  blames : ∀ l, c.pc.blames = some l → (w.listeners l).failed = true
  sender : ∀ l rx, c.pc.link = some (l, rx) → rx.sender < w.freshSender
  opened : ∀ l rx, c.pc.link = some (l, rx) → ¬(w.listeners l).IsCleared →
    (w.listeners l).senders c.channel = some rx.sender
  home : ∀ l rx, c.pc.link = some (l, rx) → ∀ l' ch,
    (w.listeners l').senders ch = some rx.sender → l' = l ∧ ch = c.channel
  closed : ∀ l rx, c.pc = .receiving l rx → (w.listeners l).IsCleared →
    (w.listeners l).senders c.channel ≠ some rx.sender

structure Sound (w : World) : Prop extends w.Sound where
  calls : ∀ c ∈ w.calls, c.Sound w

theorem Pc.holds_of_obtains {pc : Pc} {l : ℕ} (h : pc.obtains = some l) : pc.holds = some l := by
  cases pc <;> first | exact h | cases h

theorem Pc.holds_of_blames {pc : Pc} {l : ℕ} (h : pc.blames = some l) : pc.holds = some l := by
  cases pc <;> first | exact h | cases h

theorem Pc.obtains_of_link {pc : Pc} {l : ℕ} {rx : Rx} (h : pc.link = some (l, rx)) :
    pc.obtains = some l := by
  cases pc <;> first | (obtain ⟨rfl, rfl⟩ := Prod.mk.inj (Option.some.inj h); rfl) | cases h

/-! ## Changes around a call -/

/-- A change of the world that a call does not notice. -/
structure Keeps (w w' : World) (c : Call) : Prop where
  fresh : w.fresh ≤ w'.fresh
  freshSender : w.freshSender ≤ w'.freshSender
  failed : ∀ l < w.fresh, (w.listeners l).failed = true → (w'.listeners l).failed = true
  slot : ∀ l, c.pc.holds = some l → w.registry c.pool = some l →
    (w'.listeners l).failed = true ∨ w'.registry c.pool = some l
  cleared : ∀ l < w.fresh, (w.listeners l).IsCleared → (w'.listeners l).IsCleared
  stays : ∀ l < w.fresh, ¬(w'.listeners l).IsCleared → ∀ ch s,
    (w.listeners l).senders ch = some s → (w'.listeners l).senders ch = some s
  gone : ∀ l < w.fresh, (w'.listeners l).IsCleared → ¬(w.listeners l).IsCleared → ∀ ch,
    (w'.listeners l).senders ch = none
  new : ∀ l ch s, (w'.listeners l).senders ch = some s →
    (w.listeners l).senders ch = some s ∨ s = w.freshSender

theorem Call.Sound.keep {w w' : World} {c : Call} (h : c.Sound w) (hkeep : Keeps w w' c) :
    c.Sound w' where
  known l hl := (h.known l hl).trans_le hkeep.fresh
  canonical l hl := by
    have hholds := Pc.holds_of_obtains hl
    rcases h.canonical l hl with hfailed | hslot
    · exact .inl (hkeep.failed l (h.known l hholds) hfailed)
    · exact hkeep.slot l hholds hslot
  blames l hl := hkeep.failed l (h.known l (Pc.holds_of_blames hl)) (h.blames l hl)
  sender l rx hl := (h.sender l rx hl).trans_le hkeep.freshSender
  opened l rx hl hopen := by
    have hknown := h.known l (Pc.holds_of_obtains (Pc.obtains_of_link hl))
    have hbefore := h.opened l rx hl fun hcleared => hopen (hkeep.cleared l hknown hcleared)
    exact hkeep.stays l hknown hopen _ _ hbefore
  home l rx hl l' ch hch := by
    rcases hkeep.new l' ch _ hch with hold | hnew
    · exact h.home l rx hl l' ch hold
    · have hsender := h.sender l rx hl
      omega
  closed l rx hpc hcleared hch := by
    have hl : c.pc.link = some (l, rx) := by rw [hpc]; rfl
    have hknown := h.known l (Pc.holds_of_obtains (Pc.obtains_of_link hl))
    by_cases hbefore : (w.listeners l).IsCleared
    · rcases hkeep.new l _ _ hch with hold | hnew
      · exact h.closed l rx hpc hbefore hold
      · have hsender := h.sender l rx hl
        omega
    · rw [hkeep.gone l hknown hcleared hbefore] at hch
      cases hch

/-- Nothing but the calls, the journal and what was sent differs. -/
theorem keeps_of_eq {w w' : World} {c : Call} (hregistry : w'.registry = w.registry)
    (hlisteners : w'.listeners = w.listeners) (hfresh : w'.fresh = w.fresh)
    (hsender : w'.freshSender = w.freshSender) : Keeps w w' c where
  fresh := hfresh.ge
  freshSender := hsender.ge
  failed l _ h := by rwa [hlisteners]
  slot l _ h := .inr (by rwa [hregistry])
  cleared l _ h := by rwa [hlisteners]
  stays l _ _ ch s h := by rwa [hlisteners]
  gone l _ h hnot := absurd (by rwa [hlisteners] at h) hnot
  new l ch s h := .inl (by rwa [hlisteners] at h)

theorem keeps_setSlot {w : World} {c : Call} (pool : ℕ) (slot : Option ℕ)
    (h : ∀ l, c.pool = pool → c.pc.holds = some l → w.registry pool = some l →
      (w.listeners l).failed = true ∨ slot = some l) : Keeps w (w.setSlot pool slot) c where
  fresh := le_rfl
  freshSender := le_rfl
  failed l _ h := h
  slot l hl hslot := by
    by_cases hpool : c.pool = pool
    · refine (h l hpool hl (hpool ▸ hslot)).imp_right fun hnew => ?_
      rw [World.setSlot, hpool]
      exact (Function.update_self pool slot w.registry).trans hnew
    · refine .inr ?_
      rw [World.setSlot]
      exact (Function.update_of_ne hpool slot w.registry).trans hslot
  cleared l _ h := h
  stays l _ _ ch s h := h
  gone l _ h hnot := absurd h hnot
  new l ch s h := .inl h

/-- How a listener may change. -/
structure Listener.Evolves (x x' : Listener) : Prop where
  failed : x.failed = true → x'.failed = true
  cleared : x.IsCleared → x'.IsCleared
  stays : ¬x'.IsCleared → ∀ ch s, x.senders ch = some s → x'.senders ch = some s
  gone : x'.IsCleared → ¬x.IsCleared → ∀ ch, x'.senders ch = none
  new : ∀ ch s, x'.senders ch = some s → x.senders ch = some s

theorem Listener.Evolves.refl (x : Listener) : x.Evolves x :=
  ⟨id, id, fun _ _ _ => id, fun h hnot => absurd h hnot, fun _ _ => id⟩

/-- Only the side of the server differs. -/
theorem Listener.Evolves.of_server {x x' : Listener} (hwatcher : x'.watcher = x.watcher)
    (hfailed : x'.failed = x.failed) (hsenders : x'.senders = x.senders) : x.Evolves x' where
  failed h := by rwa [hfailed]
  cleared h := by rwa [IsCleared, hwatcher]
  stays _ ch s h := by rwa [hsenders]
  gone h hnot := absurd (by rwa [IsCleared, hwatcher] at h) hnot
  new ch s h := by rwa [hsenders] at h

theorem keeps_listeners {w w' : World} {c : Call} (hregistry : w'.registry = w.registry)
    (hlisteners : ∀ l < w.fresh, (w.listeners l).Evolves (w'.listeners l))
    (hlater : ∀ l, w.fresh ≤ l → ∀ ch s, (w'.listeners l).senders ch = some s →
      (w.listeners l).senders ch = some s)
    (hfresh : w.fresh ≤ w'.fresh) (hsender : w.freshSender ≤ w'.freshSender) :
    Keeps w w' c where
  fresh := hfresh
  freshSender := hsender
  failed l hl := (hlisteners l hl).failed
  slot l _ h := .inr (by rwa [hregistry])
  cleared l hl := (hlisteners l hl).cleared
  stays l hl := (hlisteners l hl).stays
  gone l hl := (hlisteners l hl).gone
  new l ch s h := by
    rcases Nat.lt_or_ge l w.fresh with hl | hl
    · exact .inl ((hlisteners l hl).new ch s h)
    · exact .inl (hlater l hl ch s h)

/-! ## The registry -/

theorem upgrade_eq_some {w : World} {pool l : ℕ} (h : w.upgrade pool = some l) :
    w.registry pool = some l := (Option.filter_eq_some_iff.mp h).1

theorem alive_of_holds {w : World} {c : Call} {l : ℕ} (hc : c ∈ w.calls)
    (hl : c.pc.holds = some l) : w.alive l = true :=
  List.any_eq_true.mpr ⟨c, hc, decide_eq_true hl⟩

/-- A slot that cannot be upgraded is nobody's. -/
theorem upgrade_eq_none {w : World} {c : Call} {pool l : ℕ} (h : w.upgrade pool = none)
    (hc : c ∈ w.calls) (hl : c.pc.holds = some l) : w.registry pool ≠ some l := by
  intro hslot
  rw [World.upgrade, hslot] at h
  exact Option.filter_eq_none_iff.mp h l rfl (alive_of_holds hc hl)

/-- A slot that is upgraded is the one that a call holds, if the call's is there. -/
theorem upgrade_of_holds {w : World} {c : Call} {pool l : ℕ} (hc : c ∈ w.calls)
    (hl : c.pc.holds = some l) (hslot : w.registry pool = some l) : w.upgrade pool = some l := by
  rw [World.upgrade, hslot]
  exact Option.filter_eq_some_iff.mpr ⟨rfl, alive_of_holds hc hl⟩

theorem World.Sound.setSlot {w : World} (h : w.Sound) (pool : ℕ) (slot : Option ℕ)
    (hslot : ∀ l, slot = some l → l < w.fresh) : (w.setSlot pool slot).Sound where
  slot pool' l hl := by
    by_cases hpool : pool' = pool
    · subst hpool
      exact hslot l ((Function.update_self _ _ w.registry).symm.trans hl)
    · exact h.slot pool' l ((Function.update_of_ne hpool _ w.registry).symm.trans hl)
  exited := h.exited
  known := h.known
  once := h.once

theorem World.Sound.setListener {w : World} (h : w.Sound) (l : ℕ) (x : Listener)
    (hexited : x.failed = true ↔ x.watcher = .exited)
    (hsenders : ∀ ch s, x.senders ch = some s → (w.listeners l).senders ch = some s) :
    (w.setListener l x).Sound := by
  have hback : ∀ l' ch s, ((w.setListener l x).listeners l').senders ch = some s →
      (w.listeners l').senders ch = some s := by
    intro l' ch s hs
    by_cases hl : l' = l
    · subst hl
      rw [w.setListener_self] at hs
      exact hsenders ch s hs
    · rwa [w.setListener_of_ne l x hl] at hs
  refine ⟨h.slot, fun l' => ?_, fun l' ch s hs => h.known l' ch s (hback l' ch s hs),
    fun l₁ ch₁ l₂ ch₂ s h₁ h₂ => h.once _ _ _ _ s (hback _ _ _ h₁) (hback _ _ _ h₂)⟩
  by_cases hl : l' = l
  · subst hl
    rwa [w.setListener_self]
  · rw [w.setListener_of_ne l x hl]
    exact h.exited l'

theorem keeps_setListener {w : World} {c : Call} (l : ℕ) (x : Listener)
    (hx : (w.listeners l).Evolves x) : Keeps w (w.setListener l x) c := by
  refine keeps_listeners rfl (fun l' _ => ?_) (fun l' _ ch s hs => ?_) le_rfl le_rfl
  · by_cases hl : l' = l
    · subst hl
      rwa [w.setListener_self]
    · rw [w.setListener_of_ne l x hl]
      exact .refl _
  · by_cases hl : l' = l
    · subst hl
      rw [w.setListener_self] at hs
      exact hx.new ch s hs
    · rwa [w.setListener_of_ne l x hl] at hs

/-! ## The steps of a call -/

/-- A call without a receiver. -/
theorem Call.Sound.of_unlinked {w : World} {c : Call} (hlink : c.pc.link = none)
    (hknown : ∀ l, c.pc.holds = some l → l < w.fresh)
    (hcanonical : ∀ l, c.pc.obtains = some l →
      (w.listeners l).failed = true ∨ w.registry c.pool = some l)
    (hblames : ∀ l, c.pc.blames = some l → (w.listeners l).failed = true) : c.Sound w where
  known := hknown
  canonical := hcanonical
  blames := hblames
  sender l rx h := by rw [hlink] at h; cases h
  opened l rx h := by rw [hlink] at h; cases h
  home l rx h := by rw [hlink] at h; cases h
  closed l rx h := by rw [h] at hlink; cases hlink

/-- A call that holds nothing. -/
theorem Call.Sound.of_empty {w : World} {c : Call} (hlink : c.pc.link = none)
    (h : c.pc.holds = none) : c.Sound w := by
  refine .of_unlinked hlink (fun l hl => ?_) (fun l hl => ?_) (fun l hl => ?_)
  · rw [h] at hl
    cases hl
  · rw [Pc.holds_of_obtains hl] at h
    cases h
  · rw [Pc.holds_of_blames hl] at h
    cases h

/-- What the step of one call does to the world and to the call. -/
structure Stepped (w w' : World) (c : Call) (pc : Pc) : Prop where
  calls : w'.calls = w.calls
  world : w'.Sound
  keeps : ∀ d ∈ w.calls, Keeps w w' d
  call : Call.Sound w' { c with pc }

theorem Stepped.stay {w : World} {c : Call} {pc : Pc} (h : w.Sound)
    (hcall : Call.Sound w { c with pc }) : Stepped w w c pc :=
  ⟨rfl, h, fun _ _ => keeps_of_eq rfl rfl rfl rfl, hcall⟩

theorem stepped_lookup {w : World} {c : Call} (h : Sound w) :
    let r := upgradeExisting w c.pool
    Stepped w r.1 c (r.2.elim .spawn .found) := by
  unfold upgradeExisting
  cases hup : w.upgrade c.pool with
  | some l =>
    have hslot := upgrade_eq_some hup
    refine .stay h.toSound (.of_unlinked rfl (fun l' hl => ?_) (fun l' hl => ?_) nofun)
    · obtain rfl := Option.some.inj hl
      exact h.slot c.pool l hslot
    · obtain rfl := Option.some.inj hl
      exact .inr hslot
  | none =>
    refine ⟨rfl, h.toSound.setSlot _ _ nofun, fun d hd => ?_, .of_empty rfl rfl⟩
    exact keeps_setSlot _ _ fun l _ hl hslot => absurd hslot (upgrade_eq_none hup hd hl)

theorem stepped_reap {w : World} {c : Call} {l : ℕ} (h : Sound w) (hc : c ∈ w.calls)
    (hpc : c.pc = .reap l) :
    let r := removeIfCurrent w c.pool l
    Stepped w r.1 c (if r.2 then .spawn else .lookup) := by
  have hfailed : (w.listeners l).failed = true := (h.calls c hc).blames l (by rw [hpc]; rfl)
  have hkept (hblame : ∀ l', w.upgrade c.pool = some l' → l' = l) :
      ∀ d ∈ w.calls, Keeps w (w.setSlot c.pool none) d := fun d hd =>
    keeps_setSlot _ _ fun l' _ hl hslot => .inl <| by
      rw [hblame l' (upgrade_of_holds hd hl hslot)]
      exact hfailed
  have hemptied (hblame : ∀ l', w.upgrade c.pool = some l' → l' = l) :
      Stepped w (w.setSlot c.pool none) c .spawn :=
    ⟨rfl, h.toSound.setSlot _ _ nofun, hkept hblame, .of_empty rfl rfl⟩
  unfold removeIfCurrent
  cases hup : w.upgrade c.pool with
  | some current =>
    by_cases hcurrent : current = l
    · simp only [hcurrent, decide_true, if_true]
      exact hemptied fun l' hl => (Option.some.inj (hl.symm.trans hup)).trans hcurrent
    · simp only [hcurrent, decide_false, Bool.false_eq_true, if_false]
      exact .stay h.toSound (.of_empty rfl rfl)
  | none =>
    cases hslot : w.registry c.pool with
    | some dangling =>
      refine hemptied fun l' hl => ?_
      rw [hup] at hl
      cases hl
    | none => exact .stay h.toSound (.of_empty rfl rfl)

theorem stepped_spawn {w : World} {c : Call} (h : Sound w) :
    Stepped w { w.setListener w.fresh .spawned with fresh := w.fresh + 1 } c
      (.install w.fresh) := by
  have hbase := h.toSound.setListener w.fresh .spawned (by simp [Listener.spawned]) nofun
  refine ⟨rfl, ⟨fun pool l hl => Nat.lt_succ_of_lt (hbase.slot pool l hl), hbase.exited,
    hbase.known, hbase.once⟩, fun d hd => ?_, ?_⟩
  · refine keeps_listeners rfl (fun l hl => ?_) (fun l hl ch s hs => ?_) (Nat.le_succ _) le_rfl
    · dsimp only
      rw [w.setListener_of_ne w.fresh _ (Nat.ne_of_lt hl)]
      exact .refl _
    · by_cases heq : l = w.fresh
      · subst heq
        dsimp only at hs
        rw [w.setListener_self] at hs
        cases hs
      · dsimp only at hs
        rwa [w.setListener_of_ne w.fresh _ heq] at hs
  · refine .of_unlinked rfl (fun l hl => ?_) nofun nofun
    obtain rfl := Option.some.inj hl
    exact Nat.lt_succ_self _

theorem stepped_install {w : World} {c : Call} {l : ℕ} (h : Sound w) (hc : c ∈ w.calls)
    (hpc : c.pc = .install l) :
    let r := installOrLose w c.pool l
    Stepped w r.1 c (.obtained r.2) := by
  have hknown : l < w.fresh := (h.calls c hc).known l (by rw [hpc]; rfl)
  unfold installOrLose
  cases hup : w.upgrade c.pool with
  | some existing =>
    have hslot := upgrade_eq_some hup
    refine .stay h.toSound (.of_unlinked rfl (fun l' hl => ?_) (fun l' hl => ?_) nofun)
    · obtain rfl := Option.some.inj hl
      exact h.slot c.pool existing hslot
    · obtain rfl := Option.some.inj hl
      exact .inr hslot
  | none =>
    refine ⟨rfl, h.toSound.setSlot _ _ fun l' hl => ?_, fun d hd => ?_, ?_⟩
    · obtain rfl := Option.some.inj hl
      exact hknown
    · exact keeps_setSlot _ _ fun l' _ hl hslot => absurd hslot (upgrade_eq_none hup hd hl)
    · refine .of_unlinked rfl (fun l' hl => ?_) (fun l' hl => .inr ?_) nofun
      · obtain rfl := Option.some.inj hl
        exact hknown
      · obtain rfl := Option.some.inj hl
        exact Function.update_self _ _ w.registry

theorem stepped_found {w : World} {c : Call} {l : ℕ} (h : Sound w) (hc : c ∈ w.calls)
    (hpc : c.pc = .found l) :
    Stepped w w c (if (w.listeners l).failed then .reap l else .obtained l) := by
  have hknown : l < w.fresh := (h.calls c hc).known l (by rw [hpc]; rfl)
  have hcanonical := (h.calls c hc).canonical l (by rw [hpc]; rfl)
  split
  · rename_i hfailed
    refine .stay h.toSound (.of_unlinked rfl (fun l' hl => ?_) nofun fun l' hl => ?_)
    · obtain rfl := Option.some.inj hl
      exact hknown
    · obtain rfl := Option.some.inj hl
      exact hfailed
  · refine .stay h.toSound (.of_unlinked rfl (fun l' hl => ?_) (fun l' hl => ?_) nofun)
    · obtain rfl := Option.some.inj hl
      exact hknown
    · obtain rfl := Option.some.inj hl
      exact hcanonical

theorem stepped_obtained {w : World} {c : Call} {l : ℕ} (h : Sound w) (hc : c ∈ w.calls)
    (hpc : c.pc = .obtained l) :
    Stepped w w c (if !isPlainIdent (utf8 c.channel) then .failed .listenerStartFailed
      else if (w.listeners l).failed then .failed .listenerTerminated else .insert l) := by
  split_ifs
  · exact .stay h.toSound (.of_empty rfl rfl)
  · exact .stay h.toSound (.of_empty rfl rfl)
  · refine .stay h.toSound (.of_unlinked rfl (fun l' hl => ?_) (fun l' hl => ?_) nofun)
    · obtain rfl := Option.some.inj hl
      exact (h.calls c hc).known l (by rw [hpc]; rfl)
    · obtain rfl := Option.some.inj hl
      exact (h.calls c hc).canonical l (by rw [hpc]; rfl)

theorem subscribeSender_some {w : World} {l s : ℕ} {channel : String}
    (h : (w.listeners l).senders channel = some s) :
    subscribeSender w l channel = (w, .new s (w.sent s)) := by
  rw [subscribeSender, h]

theorem subscribeSender_none {w : World} {l : ℕ} {channel : String}
    (h : (w.listeners l).senders channel = none) :
    subscribeSender w l channel = (w.addSender l channel, .new w.freshSender []) := by
  rw [subscribeSender, h]

/-- A sender that is made is nobody else's. -/
theorem addSender_listeners {w : World} (l : ℕ) (channel : String)
    (hnone : (w.listeners l).senders channel = none) :
    ((w.addSender l channel).listeners l).senders channel = some w.freshSender ∧
      (∀ l' ch s, ((w.addSender l channel).listeners l').senders ch = some s →
        (w.listeners l').senders ch = some s ∨ s = w.freshSender ∧ l' = l ∧ ch = channel) ∧
      (∀ l' ch s, (w.listeners l').senders ch = some s →
        ((w.addSender l channel).listeners l').senders ch = some s) ∧
      (∀ l', ((w.addSender l channel).listeners l').failed = (w.listeners l').failed ∧
        ((w.addSender l channel).listeners l').watcher = (w.listeners l').watcher) := by
  unfold World.addSender
  dsimp only
  refine ⟨?_, fun l' ch s hs => ?_, fun l' ch s hs => ?_, fun l' => ?_⟩
  · rw [w.setListener_self]
    exact Function.update_self ..
  · by_cases hl : l' = l
    · subst hl
      rw [w.setListener_self] at hs
      by_cases hch : ch = channel
      · subst hch
        dsimp only at hs
        rw [Function.update_self] at hs
        exact .inr ⟨(Option.some.inj hs).symm, rfl, rfl⟩
      · exact .inl ((Function.update_of_ne hch _ _).symm.trans hs)
    · rw [w.setListener_of_ne l _ hl] at hs
      exact .inl hs
  · by_cases hl : l' = l
    · subst hl
      rw [w.setListener_self]
      refine (Function.update_of_ne ?_ _ _).trans hs
      rintro rfl
      rw [hnone] at hs
      cases hs
    · rwa [w.setListener_of_ne l _ hl]
  · by_cases hl : l' = l
    · subst hl
      rw [w.setListener_self]
      exact ⟨rfl, rfl⟩
    · rw [w.setListener_of_ne l _ hl]
      exact ⟨rfl, rfl⟩

theorem stepped_addSender {w : World} {c : Call} {l : ℕ} (h : Sound w)
    (hsender : (w.listeners l).senders c.channel = none) (hknown : l < w.fresh)
    (hcanonical : (w.listeners l).failed = true ∨ w.registry c.pool = some l) :
    Stepped w (w.addSender l c.channel) c (.recheck l (.new w.freshSender [])) := by
  obtain ⟨hself, hback, hforth, hsame⟩ := addSender_listeners l c.channel hsender
  have hcleared (l' : ℕ) :
      ((w.addSender l c.channel).listeners l').IsCleared ↔ (w.listeners l').IsCleared := by
    rw [Listener.IsCleared, Listener.IsCleared, (hsame l').2]
  refine ⟨rfl, ⟨h.slot, fun l' => ?_, fun l' ch s hs => ?_, fun l₁ ch₁ l₂ ch₂ s h₁ h₂ => ?_⟩,
    fun d _ => ⟨le_rfl, Nat.le_succ _, fun l' _ hl => ?_, fun l' _ hl => .inr hl,
    fun l' _ hl => (hcleared l').mpr hl, fun l' _ _ ch s hs => hforth l' ch s hs,
    fun l' _ hl hnot => absurd ((hcleared l').mp hl) hnot,
    fun l' ch s hs => (hback l' ch s hs).imp_right And.left⟩, ?_⟩
  · rw [(hsame l').1, (hsame l').2]
    exact h.exited l'
  · rcases hback l' ch s hs with hold | ⟨rfl, -⟩
    · exact Nat.lt_succ_of_lt (h.known l' ch s hold)
    · exact Nat.lt_succ_self _
  · rcases hback l₁ ch₁ s h₁ with hold₁ | ⟨rfl, rfl, rfl⟩
    · rcases hback l₂ ch₂ s h₂ with hold₂ | ⟨rfl, rfl, rfl⟩
      · exact h.once _ _ _ _ s hold₁ hold₂
      · exact absurd (h.known _ _ _ hold₁) (Nat.lt_irrefl _)
    · rcases hback l₂ ch₂ _ h₂ with hold₂ | ⟨-, rfl, rfl⟩
      · exact absurd (h.known _ _ _ hold₂) (Nat.lt_irrefl _)
      · exact ⟨rfl, rfl⟩
  · rwa [(hsame l').1]
  · refine ⟨fun l' hl => ?_, fun l' hl => ?_, nofun, fun l' rx hl => ?_, fun l' rx hl _ => ?_,
      fun l' rx hl l₂ ch hch => ?_, nofun⟩
    · obtain rfl := Option.some.inj hl
      exact hknown
    · obtain rfl := Option.some.inj hl
      rw [(hsame l).1]
      exact hcanonical
    · obtain ⟨rfl, rfl⟩ := Prod.mk.inj (Option.some.inj hl)
      exact Nat.lt_succ_self _
    · obtain ⟨rfl, rfl⟩ := Prod.mk.inj (Option.some.inj hl)
      exact hself
    · obtain ⟨rfl, rfl⟩ := Prod.mk.inj (Option.some.inj hl)
      rcases hback l₂ ch _ hch with hold | ⟨-, rfl, rfl⟩
      · exact absurd (h.known _ _ _ hold) (Nat.lt_irrefl _)
      · exact ⟨rfl, rfl⟩

theorem stepped_insert {w : World} {c : Call} {l : ℕ} (h : Sound w) (hc : c ∈ w.calls)
    (hpc : c.pc = .insert l) :
    let r := subscribeSender w l c.channel
    Stepped w r.1 c (.recheck l r.2) := by
  have hknown : l < w.fresh := (h.calls c hc).known l (by rw [hpc]; rfl)
  have hcanonical := (h.calls c hc).canonical l (by rw [hpc]; rfl)
  cases hsender : (w.listeners l).senders c.channel with
  | some s =>
    rw [subscribeSender_some hsender]
    refine .stay h.toSound ⟨fun l' hl => ?_, fun l' hl => ?_, nofun, fun l' rx hl => ?_,
      fun l' rx hl _ => ?_, fun l' rx hl l₂ ch hch => ?_, nofun⟩
    · obtain rfl := Option.some.inj hl
      exact hknown
    · obtain rfl := Option.some.inj hl
      exact hcanonical
    · obtain ⟨rfl, rfl⟩ := Prod.mk.inj (Option.some.inj hl)
      exact h.known l c.channel s hsender
    · obtain ⟨rfl, rfl⟩ := Prod.mk.inj (Option.some.inj hl)
      exact hsender
    · obtain ⟨rfl, rfl⟩ := Prod.mk.inj (Option.some.inj hl)
      exact h.once _ _ _ _ s hch hsender
  | none =>
    rw [subscribeSender_none hsender]
    exact stepped_addSender h hsender hknown hcanonical

theorem stepped_recheck {w : World} {c : Call} {l : ℕ} {rx : Rx} (h : Sound w)
    (hc : c ∈ w.calls) (hpc : c.pc = .recheck l rx) :
    Stepped w w c (if (w.listeners l).failed then .cleanup l else .listen l rx) := by
  have hsound := h.calls c hc
  have hlink : c.pc.link = some (l, rx) := by rw [hpc]; rfl
  have hknown : l < w.fresh := hsound.known l (by rw [hpc]; rfl)
  have hcanonical := hsound.canonical l (by rw [hpc]; rfl)
  split
  · rename_i hfailed
    refine .stay h.toSound (.of_unlinked rfl (fun l' hl => ?_) (fun l' hl => ?_) fun l' hl => ?_)
    · obtain rfl := Option.some.inj hl
      exact hknown
    · obtain rfl := Option.some.inj hl
      exact hcanonical
    · obtain rfl := Option.some.inj hl
      exact hfailed
  · refine .stay h.toSound ⟨fun l' hl => ?_, fun l' hl => ?_, nofun,
      fun l' rx' hl => hsound.sender l' rx' (hlink.trans hl),
      fun l' rx' hl => hsound.opened l' rx' (hlink.trans hl),
      fun l' rx' hl => hsound.home l' rx' (hlink.trans hl), nofun⟩
    · obtain rfl := Option.some.inj hl
      exact hknown
    · obtain rfl := Option.some.inj hl
      exact hcanonical

theorem stepped_cleanup {w : World} {c : Call} {l : ℕ} (h : Sound w) (hc : c ∈ w.calls)
    (hpc : c.pc = .cleanup l) :
    Stepped w (w.setListener l { w.listeners l with
      senders := Function.update (w.listeners l).senders c.channel none }) c
      (.failed .listenerTerminated) := by
  have hfailed := (h.calls c hc).blames l (by rw [hpc]; rfl)
  have hcleared : (w.listeners l).IsCleared := .inr ((h.exited l).mp hfailed)
  have hback (ch : String) (s : ℕ)
      (hs : Function.update (w.listeners l).senders c.channel none ch = some s) :
      (w.listeners l).senders ch = some s := by
    by_cases hch : ch = c.channel
    · subst hch
      rw [Function.update_self] at hs
      cases hs
    · rwa [Function.update_of_ne hch] at hs
  refine ⟨rfl, h.toSound.setListener _ _ (h.exited l) hback, fun d _ =>
    keeps_setListener _ _ ⟨id, id, fun hnot => absurd hcleared hnot,
      fun _ hnot => absurd hcleared hnot, hback⟩, .of_empty rfl rfl⟩

theorem stepped_listen {w : World} {c : Call} {l : ℕ} {rx : Rx} (h : Sound w)
    (hc : c ∈ w.calls) (hpc : c.pc = .listen l rx) (hpolling : (w.listeners l).watcher = .polling) :
    Stepped w (w.setListener l { w.listeners l with
      channels := Postgres.folded c.channel :: (w.listeners l).channels }) c
      (.receiving l { rx with
        since := w.journal.length
        listened := (w.sent rx.sender).length
        ahead := (w.listeners l).inbox }) := by
  have hsound := h.calls c hc
  have hlink : c.pc.link = some (l, rx) := by rw [hpc]; rfl
  have hkeep := keeps_setListener (c := c) l { w.listeners l with
    channels := Postgres.folded c.channel :: (w.listeners l).channels } (.of_server rfl rfl rfl)
  have hafter := hsound.keep hkeep
  refine ⟨rfl, h.toSound.setListener _ _ (h.exited l) fun _ _ => id,
    fun d _ => keeps_setListener _ _ (.of_server rfl rfl rfl), fun l' hl => ?_, fun l' hl => ?_,
    nofun, fun l' rx' hl => ?_, fun l' rx' hl => ?_, fun l' rx' hl => ?_,
    fun l' rx' hl hcleared => ?_⟩
  · obtain rfl := Option.some.inj hl
    exact hafter.known l (by rw [hpc]; rfl)
  · obtain rfl := Option.some.inj hl
    exact hafter.canonical l (by rw [hpc]; rfl)
  · obtain ⟨rfl, rfl⟩ := Prod.mk.inj (Option.some.inj hl)
    exact hafter.sender l rx hlink
  · obtain ⟨rfl, rfl⟩ := Prod.mk.inj (Option.some.inj hl)
    exact hafter.opened l rx hlink
  · obtain ⟨rfl, rfl⟩ := Prod.mk.inj (Option.some.inj hl)
    exact hafter.home l rx hlink
  · obtain ⟨rfl, rfl⟩ := Pc.receiving.inj hl
    rw [w.setListener_self, Listener.IsCleared] at hcleared
    dsimp only at hcleared
    rw [hpolling] at hcleared
    rcases hcleared with hcleared | hcleared <;> cases hcleared

theorem runCall_stepped {w w' : World} {c : Call} {ok : Bool} {pc : Pc} (h : Sound w)
    (hc : c ∈ w.calls) (hrun : runCall w c ok = some (w', pc)) : Stepped w w' c pc := by
  cases hpc : c.pc with
  | lookup =>
    have hstep := stepped_lookup (c := c) h
    simp only [runCall, hpc] at hrun
    generalize upgradeExisting w c.pool = r at hstep hrun
    obtain ⟨w₁, found⟩ := r
    cases found <;> cases hrun <;> exact hstep
  | found l =>
    rw [runCall, hpc] at hrun
    cases hrun
    exact stepped_found h hc hpc
  | reap l =>
    rw [runCall, hpc] at hrun
    cases hrun
    exact stepped_reap h hc hpc
  | spawn =>
    rw [runCall, hpc] at hrun
    cases ok <;> cases hrun
    · exact .stay h.toSound (.of_empty rfl rfl)
    · exact stepped_spawn h
  | install l =>
    rw [runCall, hpc] at hrun
    cases hrun
    exact stepped_install h hc hpc
  | obtained l =>
    rw [runCall, hpc] at hrun
    cases hrun
    exact stepped_obtained h hc hpc
  | insert l =>
    rw [runCall, hpc] at hrun
    cases hrun
    exact stepped_insert h hc hpc
  | recheck l rx =>
    rw [runCall, hpc] at hrun
    cases hrun
    exact stepped_recheck h hc hpc
  | cleanup l =>
    rw [runCall, hpc] at hrun
    cases hrun
    exact stepped_cleanup h hc hpc
  | listen l rx =>
    simp only [runCall, hpc] at hrun
    split_ifs at hrun with hanswer
    · cases hrun
      simp only [Bool.and_eq_true, decide_eq_true_eq] at hanswer
      exact stepped_listen h hc hpc hanswer.2
    · cases hrun
      exact .stay h.toSound (.of_empty rfl rfl)
  | receiving l rx =>
    rw [runCall, hpc] at hrun
    cases hrun
  | failed e =>
    rw [runCall, hpc] at hrun
    cases hrun
  | dropped =>
    rw [runCall, hpc] at hrun
    cases hrun

/-! ## Every step -/

theorem World.Sound.of_eq {w w' : World} (h : w.Sound) (hregistry : w'.registry = w.registry)
    (hlisteners : w'.listeners = w.listeners) (hfresh : w'.fresh = w.fresh)
    (hsender : w'.freshSender = w.freshSender) : w'.Sound where
  slot pool l hl := by
    rw [hregistry] at hl
    exact (h.slot pool l hl).trans_eq hfresh.symm
  exited l := by rw [hlisteners]; exact h.exited l
  known l ch s hs := by
    rw [hlisteners] at hs
    exact (h.known l ch s hs).trans_eq hsender.symm
  once l ch l' ch' s hs hs' := by
    rw [hlisteners] at hs hs'
    exact h.once l ch l' ch' s hs hs'

/-- One call is put in the place of another. -/
theorem Stepped.setCall {w w' : World} {c : Call} {pc : Pc} (h : Sound w)
    (hstep : Stepped w w' c pc) (i : ℕ) : Sound (w'.setCall i { c with pc }) where
  toSound := hstep.world.of_eq rfl rfl rfl rfl
  calls d hd := by
    refine Call.Sound.keep ?_ (keeps_of_eq (w := w') rfl rfl rfl rfl)
    rcases List.mem_or_eq_of_mem_set hd with hold | rfl
    · rw [hstep.calls] at hold
      exact (h.calls d hold).keep (hstep.keeps d hold)
    · exact hstep.call

theorem Sound.setListener {w : World} (h : Sound w) (l : ℕ) (x : Listener)
    (hexited : x.failed = true ↔ x.watcher = .exited) (hx : (w.listeners l).Evolves x) :
    Sound (w.setListener l x) :=
  ⟨h.toSound.setListener l x hexited hx.new,
    fun c hc => (h.calls c hc).keep (keeps_setListener l x hx)⟩

theorem Sound.of_eq {w w' : World} (h : Sound w) (hcalls : w'.calls = w.calls)
    (hregistry : w'.registry = w.registry) (hlisteners : w'.listeners = w.listeners)
    (hfresh : w'.fresh = w.fresh) (hsender : w'.freshSender = w.freshSender) : Sound w' :=
  ⟨h.toSound.of_eq hregistry hlisteners hfresh hsender, fun c hc =>
    (h.calls c (hcalls ▸ hc)).keep (keeps_of_eq hregistry hlisteners hfresh hsender)⟩

theorem send_eq (w : World) (s : ℕ) (raw : RawEvent) :
    (w.send s raw).calls = w.calls ∧ (w.send s raw).registry = w.registry ∧
      (w.send s raw).listeners = w.listeners ∧ (w.send s raw).fresh = w.fresh ∧
      (w.send s raw).freshSender = w.freshSender ∧ (w.send s raw).journal = w.journal := by
  unfold World.send
  split <;> exact ⟨rfl, rfl, rfl, rfl, rfl, rfl⟩

theorem Sound.send {w : World} (h : Sound w) (s : ℕ) (raw : RawEvent) : Sound (w.send s raw) := by
  obtain ⟨hcalls, hregistry, hlisteners, hfresh, hsender, -⟩ := send_eq w s raw
  exact h.of_eq hcalls hregistry hlisteners hfresh hsender

/-- A receiver that has moved on. -/
theorem Call.Sound.moved {w : World} {c : Call} {l : ℕ} {rx rx' : Rx} (h : c.Sound w)
    (hpc : c.pc = .receiving l rx) (hsender : rx'.sender = rx.sender) :
    Call.Sound w { c with pc := .receiving l rx' } := by
  have hlink : c.pc.link = some (l, rx) := by rw [hpc]; rfl
  refine ⟨fun l' hl => ?_, fun l' hl => ?_, nofun, fun l' rx₁ hl => ?_, fun l' rx₁ hl => ?_,
    fun l' rx₁ hl => ?_, fun l' rx₁ hl => ?_⟩
  · obtain rfl := Option.some.inj hl
    exact h.known l (by rw [hpc]; rfl)
  · obtain rfl := Option.some.inj hl
    exact h.canonical l (by rw [hpc]; rfl)
  · obtain ⟨rfl, rfl⟩ := Prod.mk.inj (Option.some.inj hl)
    rw [hsender]
    exact h.sender l rx hlink
  · obtain ⟨rfl, rfl⟩ := Prod.mk.inj (Option.some.inj hl)
    rw [hsender]
    exact h.opened l rx hlink
  · obtain ⟨rfl, rfl⟩ := Prod.mk.inj (Option.some.inj hl)
    rw [hsender]
    exact h.home l rx hlink
  · obtain ⟨rfl, rfl⟩ := Pc.receiving.inj hl
    rw [hsender]
    exact h.closed l rx hpc

theorem Rx.recv_eq_some {rx rx' : Rx} {sent : List RawEvent} {isOpen : Bool}
    (h : rx.recv sent isOpen = some rx') :
    (capacity < sent.length - rx.next ∧ rx' = { rx with
        next := sent.length - capacity
        got := rx.got ++ [.lagged (sent.length - capacity - rx.next)] }) ∨
      (∃ raw, sent[rx.next]? = some raw ∧
        rx' = { rx with next := rx.next + 1, got := rx.got ++ [.event raw] }) ∨
      (sent[rx.next]? = none ∧ isOpen = false ∧ rx' = { rx with got := rx.got ++ [.closed] }) := by
  unfold Rx.recv at h
  by_cases hlag : capacity < sent.length - rx.next
  · rw [if_pos hlag] at h
    exact .inl ⟨hlag, (Option.some.inj h).symm⟩
  · rw [if_neg hlag] at h
    right
    cases hget : sent[rx.next]? with
    | some raw =>
      rw [hget] at h
      exact .inl ⟨raw, rfl, (Option.some.inj h).symm⟩
    | none =>
      rw [hget] at h
      cases isOpen with
      | true => cases h
      | false => exact .inr ⟨rfl, rfl, (Option.some.inj h).symm⟩

theorem Rx.recv_closed (rx : Rx) (sent : List RawEvent) : ∃ rx', rx.recv sent false = some rx' := by
  unfold Rx.recv
  by_cases hlag : capacity < sent.length - rx.next
  · exact ⟨_, if_pos hlag⟩
  · rw [if_neg hlag]
    cases sent[rx.next]? with
    | some raw => exact ⟨_, rfl⟩
    | none => exact ⟨_, rfl⟩

theorem Rx.recv_sender {rx rx' : Rx} {sent : List RawEvent} {isOpen : Bool}
    (h : rx.recv sent isOpen = some rx') : rx'.sender = rx.sender := by
  rcases Rx.recv_eq_some h with ⟨-, rfl⟩ | ⟨raw, -, rfl⟩ | ⟨-, -, rfl⟩ <;> rfl

variable {parseRaw : String → Option RawEvent}

/-- **One step** keeps all of it. -/
theorem sound_step {w w' : World} (a : Action) (h : Sound w)
    (hstep : step parseRaw w a = some w') : Sound w' := by
  cases a with
  | call pool channel =>
    obtain rfl := Option.some.inj hstep
    refine ⟨h.toSound.of_eq rfl rfl rfl rfl, fun c hc => ?_⟩
    refine Call.Sound.keep ?_ (keeps_of_eq (w := w) rfl rfl rfl rfl)
    rcases List.mem_append.mp hc with hold | hnew
    · exact h.calls c hold
    · obtain rfl := List.mem_singleton.mp hnew
      exact .of_empty rfl rfl
  | run i ok =>
    obtain ⟨c, hc, hstep⟩ := Option.bind_eq_some_iff.mp hstep
    obtain ⟨⟨w₁, pc⟩, hrun, hstep⟩ := Option.bind_eq_some_iff.mp hstep
    obtain rfl := Option.some.inj hstep
    exact (runCall_stepped h (List.mem_of_getElem? hc) hrun).setCall h i
  | drop i =>
    obtain ⟨c, hc, hstep⟩ := Option.bind_eq_some_iff.mp hstep
    split_ifs at hstep
    obtain rfl := Option.some.inj hstep
    exact (Stepped.stay (c := c) h.toSound (.of_empty rfl rfl)).setCall h i
  | recv i =>
    obtain ⟨c, hc, hstep⟩ := Option.bind_eq_some_iff.mp hstep
    cases hpc : c.pc with
    | receiving l rx =>
      rw [hpc] at hstep
      obtain ⟨rx', hrecv, hstep⟩ := Option.bind_eq_some_iff.mp hstep
      obtain rfl := Option.some.inj hstep
      have hmoved := (h.calls c (List.mem_of_getElem? hc)).moved hpc (Rx.recv_sender hrecv)
      exact (Stepped.stay (c := c) h.toSound hmoved).setCall h i
    | _ =>
      rw [hpc] at hstep
      cases hstep
  | hangUp l =>
    simp only [step] at hstep
    split_ifs at hstep with hwatcher
    obtain rfl := Option.some.inj hstep
    have hnot : (w.listeners l).failed ≠ true := fun hfailed => by
      rw [(h.exited l).mp hfailed] at hwatcher
      cases hwatcher
    refine h.setListener l _ (iff_of_false hnot nofun) ⟨id, fun hcleared => ?_, fun _ _ _ => id,
      fun hcleared => ?_, fun _ _ => id⟩
    · rw [Listener.IsCleared, hwatcher] at hcleared
      rcases hcleared with hcleared | hcleared <;> cases hcleared
    · rcases hcleared with hcleared | hcleared <;> cases hcleared
  | clear l =>
    simp only [step] at hstep
    split_ifs at hstep with hwatcher
    obtain rfl := Option.some.inj hstep
    have hnot : (w.listeners l).failed ≠ true := fun hfailed => by
      rw [(h.exited l).mp hfailed] at hwatcher
      cases hwatcher
    exact h.setListener l _ (iff_of_false hnot nofun) ⟨id, fun _ => .inl rfl,
      fun hopen => absurd (.inl rfl) hopen, fun _ _ _ => rfl, nofun⟩
  | publish l =>
    simp only [step] at hstep
    split_ifs at hstep with hwatcher
    obtain rfl := Option.some.inj hstep
    exact h.setListener l _ (iff_of_true rfl rfl) ⟨fun _ => rfl, fun _ => .inr rfl,
      fun hopen => absurd (.inr rfl) hopen, fun _ hnot => absurd (.inl hwatcher) hnot,
      fun _ _ => id⟩
  | commit notes =>
    obtain rfl := Option.some.inj hstep
    have hserver (l : ℕ) : (w.listeners l).Evolves (if (w.listeners l).watcher = .polling then
        { w.listeners l with
          inbox := (w.listeners l).inbox ++ (w.listeners l).heard notes.eraseDups }
        else w.listeners l) := by
      split
      · exact .of_server rfl rfl rfl
      · exact .refl _
    refine ⟨⟨h.slot, fun l => ?_, fun l ch s hs => h.known l ch s ((hserver l).new ch s hs),
      fun l ch l' ch' s hs hs' =>
        h.once l ch l' ch' s ((hserver l).new ch s hs) ((hserver l').new ch' s hs')⟩,
      fun c hc => (h.calls c hc).keep (keeps_listeners rfl (fun l _ => hserver l)
        (fun l _ => (hserver l).new) le_rfl le_rfl)⟩
    dsimp only
    split <;> exact h.exited l
  | poll l =>
    simp only [step] at hstep
    split_ifs at hstep with hwatcher
    cases hinbox : (w.listeners l).inbox with
    | nil =>
      rw [hinbox] at hstep
      cases hstep
    | cons note rest =>
      obtain ⟨channel, payload⟩ := note
      rw [hinbox] at hstep
      have hrest : Sound (w.setListener l { w.listeners l with inbox := rest }) :=
        h.setListener l _ (h.exited l) (.of_server rfl rfl rfl)
      dsimp only at hstep
      split at hstep
      · obtain rfl := Option.some.inj hstep
        exact hrest.send _ _
      · obtain rfl := Option.some.inj hstep
        exact hrest

theorem sound_initial : Sound .initial :=
  ⟨⟨nofun, fun _ => iff_of_false nofun nofun, nofun, nofun⟩, nofun⟩

theorem sound_reached {w : World} (h : Reached parseRaw w) : Sound w := by
  induction h with
  | initial => exact sound_initial
  | step w w' a _ hstep ih => exact sound_step a ih hstep

/-! ## Results -/

/-- **A receiver never hangs.** Until the watcher has emptied the senders its channel is open in
the map of its listener; from then on no map holds it, and `recv` returns. -/
theorem receiver_never_hangs {w : World} (h : Reached parseRaw w) (c : Call) (hc : c ∈ w.calls)
    (l : ℕ) (rx : Rx) (hpc : c.pc = .receiving l rx) :
    (¬(w.listeners l).IsCleared → (w.listeners l).senders c.channel = some rx.sender) ∧
      ((w.listeners l).IsCleared →
        (∀ l' ch, (w.listeners l').senders ch ≠ some rx.sender) ∧
          ∀ i, w.calls[i]? = some c → (step parseRaw w (.recv i)).isSome = true) := by
  have hsound := (sound_reached h).calls c hc
  have hlink : c.pc.link = some (l, rx) := by rw [hpc]; rfl
  refine ⟨hsound.opened l rx hlink, fun hcleared => ?_⟩
  have hclosed := hsound.closed l rx hpc hcleared
  refine ⟨fun l' ch hch => ?_, fun i hi => ?_⟩
  · obtain ⟨rfl, rfl⟩ := hsound.home l rx hlink l' ch hch
    exact hclosed hch
  · obtain ⟨rx', hrecv⟩ := rx.recv_closed (w.sent rx.sender)
    simp only [step, hi, hpc, hclosed, decide_false, Option.bind_eq_bind, Option.bind_some, hrecv,
      Option.isSome_some]

/-- **One healthy listener a pool.** Two receivers of one pool have the same listener unless one
of the two listeners has failed, and the registry leads every later call to it. -/
theorem canonical_listener {w : World} (h : Reached parseRaw w) (c d : Call) (hc : c ∈ w.calls)
    (hd : d ∈ w.calls) (l l' : ℕ) (rx rx' : Rx) (hpc : c.pc = .receiving l rx)
    (hpd : d.pc = .receiving l' rx') (hpool : c.pool = d.pool)
    (hl : (w.listeners l).failed = false) (hl' : (w.listeners l').failed = false) :
    l = l' ∧ upgradeExisting w c.pool = (w, some l) := by
  have hsound := sound_reached h
  have hslot : w.registry c.pool = some l :=
    ((hsound.calls c hc).canonical l (by rw [hpc]; rfl)).resolve_left (Bool.eq_false_iff.mp hl)
  have hslot' : w.registry d.pool = some l' :=
    ((hsound.calls d hd).canonical l' (by rw [hpd]; rfl)).resolve_left (Bool.eq_false_iff.mp hl')
  refine ⟨Option.some.inj (hslot.symm.trans (hpool ▸ hslot')), ?_⟩
  rw [upgradeExisting, upgrade_of_holds hc (by rw [hpc]; rfl) hslot]

/-! ## Two first subscribers -/

/-- What the notification of a new car reads as. -/
def carPayload : String := "\x7b\"kind\":\"create\",\"id\":\"7\"\x7d"

def carParse (payload : String) : Option RawEvent :=
  if payload = carPayload then some ⟨"create", "7"⟩ else none

/-- Two calls that both find no listener: the second one wins the slot. -/
def race : List Action :=
  [.call 0 "djogi_cars", .call 0 "djogi_vans", .run 0 true, .run 1 true, .run 1 true, .run 0 true,
    .run 1 true, .run 0 true] ++ List.replicate 4 (.run 0 true) ++ List.replicate 4 (.run 1 true)

def raced : World := (run carParse .initial race).getD .initial

/-- Then the connection is lost, and the senders are dropped. -/
def bereft : World := (run carParse raced [.hangUp 0, .clear 0]).getD raced

def carCall : Call := ⟨0, "djogi_cars", .receiving 0 (.new 0 [])⟩

def vanCall : Call := ⟨0, "djogi_vans", .receiving 0 (.new 1 [])⟩

theorem raced_reached : Reached carParse raced := reached_run race .initial

theorem receiver_never_hangs_bereft :
    (¬(bereft.listeners 0).IsCleared → (bereft.listeners 0).senders "djogi_cars" = some 0) ∧
      ((bereft.listeners 0).IsCleared →
        (∀ l' ch, (bereft.listeners l').senders ch ≠ some 0) ∧
          ∀ i, bereft.calls[i]? = some carCall →
            (step carParse bereft (.recv i)).isSome = true) :=
  receiver_never_hangs (reached_run _ raced_reached) carCall (by decide +kernel) 0 _ rfl

theorem canonical_listener_raced : 0 = 0 ∧ upgradeExisting raced 0 = (raced, some 0) :=
  canonical_listener raced_reached carCall vanCall (by decide +kernel) (by decide +kernel) 0 0 _ _
    rfl rfl rfl (by decide +kernel) (by decide +kernel)

end Djogi.Notify
