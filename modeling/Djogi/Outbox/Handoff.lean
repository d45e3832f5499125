import Djogi.Outbox.Worker
import Mathlib.Data.List.Nodup

/-!
# Who holds a row

Reports name the row and not the claim. As long as nobody reports a row that was claimed again in
the meantime, the state of a row and the claims fit together, over all orders of steps.

* `inv_step`: what one step keeps;
* `handoff_safe`: **the hand-off is safe** over every run without such a report and without a
  recovery before the lease is over;
* `handoff_stale_failure`: a worker whose row is somebody else's by now fails it.
-/

namespace Djogi.Outbox

/-! ## Claims -/

/-- No later claim is on the same row. -/
def Latest (w : World) (i : Nat) : Prop :=
  ∃ id, (w.claims.map Claim.row)[i]? = some id ∧
    ∀ j, (w.claims.map Claim.row)[j]? = some id → j ≤ i

theorem Latest.unique {w : World} {i j : Nat} {c d : Claim} (hi : Latest w i) (hj : Latest w j)
    (hc : w.claims[i]? = some c) (hd : w.claims[j]? = some d) (hrow : c.row = d.row) : i = j := by
  obtain ⟨a, ha, hlasti⟩ := hi
  obtain ⟨b, hb, hlastj⟩ := hj
  rw [List.getElem?_map, hc] at ha
  rw [List.getElem?_map, hd] at hb
  obtain rfl := Option.some.inj ha
  obtain rfl := Option.some.inj hb
  have hle := hlasti j (by rw [List.getElem?_map, hd, hrow]; rfl)
  have hge := hlastj i (by rw [List.getElem?_map, hc, ← hrow]; rfl)
  omega

theorem Latest.congr {w w' : World} {i : Nat} (h : Latest w i)
    (hrows : w'.claims.map Claim.row = w.claims.map Claim.row) : Latest w' i := by
  rwa [Latest, hrows]

/-- The lease is not over, and the worker has not reported. -/
def Claim.Holds (c : Claim) (now : Int) : Prop := c.report ≠ .made ∧ now ≤ c.leasedUntil

/-- What holds between two steps. -/
structure Inv (w : World) : Prop where
  ids : (w.rows.map Row.id).Nodup
  retry : ∀ r ∈ w.rows, r.retryCount ≤ maxRetryCount
  owned : ∀ r ∈ w.rows, r.state = .processing → ∃ i c, w.claims[i]? = some c ∧ c.row = r.id ∧
    Latest w i ∧ r.leasedUntil = some c.leasedUntil
  held : ∀ i c, w.claims[i]? = some c → c.Holds w.now →
    Latest w i ∧ ∃ r ∈ w.rows, r.id = c.row ∧ r.state = .processing
  fetched : ∀ i c retry message retryable, w.claims[i]? = some c →
    c.report = .fetched retry message retryable → Latest w i →
      ∀ r ∈ w.rows, r.id = c.row → r.state = .processing → r.retryCount = retry
  published : ∀ r ∈ w.rows, r.state = .published → ∃ c ∈ w.claims, c.row = r.id ∧
    c.delivered = true

/-! ## Updates -/

theorem mem_update (p : Row → Bool) (f : Row → Row) (rows : List Row) (r' : Row) :
    r' ∈ update p f rows ↔ ∃ r ∈ rows, (if p r then f r else r) = r' := List.mem_map

theorem ids_update (p : Row → Bool) (f : Row → Row) (rows : List Row)
    (hf : ∀ r, (f r).id = r.id) : (update p f rows).map Row.id = rows.map Row.id := by
  rw [update, List.map_map]
  refine List.map_congr_left fun r _ => ?_
  simp only [Function.comp_apply]
  split_ifs
  · exact hf r
  · rfl

theorem eq_of_id {rows : List Row} (h : (rows.map Row.id).Nodup) {r s : Row} (hr : r ∈ rows)
    (hs : s ∈ rows) (hid : r.id = s.id) : r = s := List.inj_on_of_nodup_map h hr hs hid

theorem claims_set_rows (w : World) (i : Nat) (c c' : Claim) (hc : w.claims[i]? = some c)
    (hrow : c'.row = c.row) :
    (w.claims.set i c').map Claim.row = w.claims.map Claim.row := by
  rw [List.map_set, hrow]
  refine List.ext_getElem? fun j => ?_
  rw [List.getElem?_set]
  split_ifs with hij hlt
  · subst hij
    rw [List.getElem?_map, hc]
    rfl
  · subst hij
    rw [List.length_map] at hlt
    rw [List.getElem?_eq_none (by rw [List.length_map]; omega)]
  · rfl

/-- A claim of the list after one was replaced. -/
theorem getElem?_set_cases {claims : List Claim} {i j : Nat} {c' d : Claim}
    (h : (claims.set i c')[j]? = some d) : i = j ∧ d = c' ∨ i ≠ j ∧ claims[j]? = some d := by
  rw [List.getElem?_set] at h
  split_ifs at h with hij hlt
  · exact .inl ⟨hij, (Option.some.inj h).symm⟩
  · exact .inr ⟨hij, h⟩

theorem mem_set_of_mem {claims : List Claim} {i : Nat} {c c' : Claim} (hc : claims[i]? = some c)
    (hrow : c'.row = c.row) (hdelivered : c.delivered = true → c'.delivered = true) {d : Claim}
    (hd : d ∈ claims) (hdd : d.delivered = true) :
    ∃ e ∈ claims.set i c', e.row = d.row ∧ e.delivered = true := by
  obtain ⟨j, hj⟩ := List.mem_iff_getElem?.mp hd
  have hlt : i < claims.length := (List.getElem?_eq_some_iff.mp hc).1
  by_cases hij : i = j
  · subst hij
    obtain rfl := Option.some.inj (hc.symm.trans hj)
    exact ⟨c', List.mem_iff_getElem?.mpr ⟨i, by rw [List.getElem?_set]; simp [hlt]⟩, hrow,
      hdelivered hdd⟩
  · exact ⟨d, List.mem_iff_getElem?.mpr ⟨j, by rw [List.getElem?_set, if_neg hij]; exact hj⟩,
      rfl, hdd⟩

/-! ## Steps -/

/-- A worker goes on with its report, and no row changes. -/
theorem Inv.progress {w : World} (h : Inv w) {i : Nat} {c c' : Claim}
    (hc : w.claims[i]? = some c) (hrow : c'.row = c.row) (hlease : c'.leasedUntil = c.leasedUntil)
    (hdelivered : c.delivered = true → c'.delivered = true)
    (hmade : c'.report ≠ .made → c.report ≠ .made)
    (hfetched : ∀ retry message retryable, c'.report = .fetched retry message retryable →
      ∀ r ∈ w.rows, r.id = c.row → r.state = .processing → r.retryCount = retry) :
    Inv { w with claims := w.claims.set i c' } := by
  have hrows := claims_set_rows w i c c' hc hrow
  have hlatest {j : Nat} (hj : Latest w j) : Latest { w with claims := w.claims.set i c' } j :=
    hj.congr hrows
  have hlt : i < w.claims.length := (List.getElem?_eq_some_iff.mp hc).1
  refine ⟨h.ids, h.retry, fun r hr hp => ?_, fun j d hd hh => ?_,
    fun j d retry message retryable hd hrep hl => ?_, fun r hr hp => ?_⟩
  · obtain ⟨j, d, hd, hdr, hl, hu⟩ := h.owned r hr hp
    by_cases hij : i = j
    · subst hij
      obtain rfl := Option.some.inj (hc.symm.trans hd)
      exact ⟨i, c', by simp [hlt], hrow.trans hdr, hlatest hl,
        by rw [hu, hlease]⟩
    · exact ⟨j, d, by simpa [List.getElem?_set, hij] using hd, hdr, hlatest hl, hu⟩
  · rcases getElem?_set_cases hd with ⟨rfl, rfl⟩ | ⟨hij, hd⟩
    · obtain ⟨hl, hr⟩ := h.held i c hc ⟨hmade hh.1, hlease ▸ hh.2⟩
      exact ⟨hlatest hl, hrow ▸ hr⟩
    · obtain ⟨hl, hr⟩ := h.held j d hd hh
      exact ⟨hlatest hl, hr⟩
  · rcases getElem?_set_cases hd with ⟨rfl, rfl⟩ | ⟨hij, hd⟩
    · rw [hrow]
      exact hfetched retry message retryable hrep
    · exact h.fetched j d retry message retryable hd hrep (hl.congr hrows.symm)
  · obtain ⟨d, hd, hdr, hdd⟩ := h.published r hr hp
    obtain ⟨e, he, her, hed⟩ := mem_set_of_mem hc hrow hdelivered hd hdd
    exact ⟨e, he, her.trans hdr, hed⟩

/-- A report of the last claim, or on a row that is not processed. -/
theorem Inv.reported {w : World} (h : Inv w) {i : Nat} {c : Claim} (f : Row → Row)
    (hc : w.claims[i]? = some c)
    (hturn : (∃ r ∈ w.rows, isProcessing c.row r = true) → Latest w i)
    (hid : ∀ r, (f r).id = r.id) (hstate : ∀ r, (f r).state ≠ .processing)
    (hretry : ∀ r ∈ w.rows, isProcessing c.row r = true → (f r).retryCount ≤ maxRetryCount)
    (hpublished : ∀ r, (f r).state = .published → c.delivered = true) :
    Inv { w with rows := update (isProcessing c.row) f w.rows,
                 claims := w.claims.set i { c with report := .made } } := by
  set c' : Claim := { c with report := .made } with hc'
  have hrows := claims_set_rows w i c c' hc rfl
  have hlatest {j : Nat} (hj : Latest w j) : Latest { w with
      rows := update (isProcessing c.row) f w.rows, claims := w.claims.set i c' } j :=
    hj.congr hrows
  -- a row in work afterwards is one that the report did not touch
  have hkept {r' : Row} (hr' : r' ∈ update (isProcessing c.row) f w.rows)
      (hp : r'.state = .processing) : r' ∈ w.rows ∧ r'.id ≠ c.row := by
    obtain ⟨r, hr, heq⟩ := (mem_update _ _ _ _).mp hr'
    split_ifs at heq with hproc
    · exact absurd (heq ▸ hp) (hstate r)
    · subst heq
      exact ⟨hr, fun hidr => hproc (by simp [isProcessing, hidr, hp])⟩
  have hstays {r : Row} (hr : r ∈ w.rows) (hne : r.id ≠ c.row) :
      r ∈ update (isProcessing c.row) f w.rows :=
    (mem_update _ _ _ _).mpr ⟨r, hr, if_neg (by simp [isProcessing, hne])⟩
  refine ⟨by rw [ids_update _ _ _ hid]; exact h.ids, fun r' hr' => ?_, fun r hr hp => ?_,
    fun j d hd hh => ?_, fun j d retry message retryable hd hrep hl r hr hidr hp => ?_,
    fun r' hr' hp => ?_⟩
  · obtain ⟨r, hr, rfl⟩ := (mem_update _ _ _ _).mp hr'
    split_ifs with hproc
    · exact hretry r hr hproc
    · exact h.retry r hr
  · obtain ⟨hr, hne⟩ := hkept hr hp
    obtain ⟨j, d, hd, hdr, hl, hu⟩ := h.owned r hr hp
    have hij : i ≠ j := by
      rintro rfl
      obtain rfl := Option.some.inj (hc.symm.trans hd)
      exact hne hdr.symm
    exact ⟨j, d, by rw [List.getElem?_set, if_neg hij]; exact hd, hdr, hlatest hl, hu⟩
  · rcases getElem?_set_cases hd with ⟨rfl, rfl⟩ | ⟨hij, hd⟩
    · exact absurd rfl hh.1
    · obtain ⟨hl, r, hr, hidr, hp⟩ := h.held j d hd hh
      have hne : r.id ≠ c.row := by
        intro heq
        have hturn := hturn ⟨r, hr, by simp [isProcessing, heq, hp]⟩
        exact hij (hturn.unique hl hc hd (heq.symm.trans hidr))
      exact ⟨hlatest hl, r, hstays hr hne, hidr, hp⟩
  · rcases getElem?_set_cases hd with ⟨rfl, rfl⟩ | ⟨hij, hd⟩
    · cases hrep
    · exact h.fetched j d retry message retryable hd hrep (hl.congr hrows.symm) r (hkept hr hp).1
        hidr hp
  · obtain ⟨r, hr, heq⟩ := (mem_update _ _ _ _).mp hr'
    split_ifs at heq with hproc
    · subst heq
      have hdelivered := hpublished r hp
      have hlt : i < w.claims.length := (List.getElem?_eq_some_iff.mp hc).1
      have hidr : r.id = c.row := by
        have hand : r.id = c.row ∧ r.state = .processing := by simpa [isProcessing] using hproc
        exact hand.1
      exact ⟨c', List.mem_iff_getElem?.mpr ⟨i, by simp [hlt]⟩, by rw [hid, hidr], hdelivered⟩
    · subst heq
      obtain ⟨d, hd, hdr, hdd⟩ := h.published r hr hp
      obtain ⟨e, he, her, hed⟩ := mem_set_of_mem hc (show c'.row = c.row from rfl) id hd hdd
      exact ⟨e, he, her.trans hdr, hed⟩

/-- A recovery after the lease is over. -/
theorem Inv.recovered {w : World} (h : Inv w) (thresholdSecs : Int) (hpos : 0 ≤ thresholdSecs) :
    Inv { w with rows := recoverStale w.now thresholdSecs w.rows } := by
  have hkept {r' : Row} (hr' : r' ∈ recoverStale w.now thresholdSecs w.rows)
      (hp : r'.state ≠ .pending) : r' ∈ w.rows := by
    obtain ⟨r, hr, heq⟩ := (mem_update _ _ _ _).mp hr'
    split_ifs at heq with hstale
    · exact absurd (by rw [← heq]) hp
    · exact heq ▸ hr
  have hids : (recoverStale w.now thresholdSecs w.rows).map Row.id = w.rows.map Row.id :=
    ids_update _ _ _ fun _ => rfl
  refine ⟨by rw [hids]; exact h.ids, fun r' hr' => ?_,
    fun r hr hp => ?_, fun j d hd hh => ?_,
    fun j d retry message retryable hd hrep hl r hr hidr hp => ?_, fun r hr hp => ?_⟩
  · obtain ⟨r, hr, rfl⟩ := (mem_update _ _ _ _).mp hr'
    split_ifs
    · exact h.retry r hr
    · exact h.retry r hr
  · exact h.owned r (hkept hr (by rw [hp]; decide)) hp
  · obtain ⟨hl, r, hr, hidr, hp⟩ := h.held j d hd hh
    obtain ⟨k, e, he, hek, hlk, hu⟩ := h.owned r hr hp
    obtain rfl := hl.unique hlk hd he (hidr.symm.trans hek.symm)
    obtain rfl := Option.some.inj (hd.symm.trans he)
    have hfresh : ¬ d.leasedUntil < w.now - thresholdSecs := by
      have hlease := hh.2
      simp only at hlease
      omega
    exact ⟨hl, r, (mem_update _ _ _ _).mpr ⟨r, hr, if_neg (by simp [Row.stale, hu, hfresh])⟩,
      hidr, hp⟩
  · exact h.fetched j d retry message retryable hd hrep hl r (hkept hr (by rw [hp]; decide)) hidr hp
  · exact h.published r (hkept hr (by rw [hp]; decide)) hp

theorem claim_of_append {claims : List Claim} {worker : Nat} {until_ : Int} {chosen : List Int}
    {j : Nat} {d : Claim}
    (h : (claims ++ chosen.map (newClaim worker until_))[j]? = some d) :
    claims[j]? = some d ∨ claims.length ≤ j ∧ ∃ id, chosen[j - claims.length]? = some id ∧
      d = newClaim worker until_ id := by
  rw [List.getElem?_append] at h
  split_ifs at h with hlt
  · exact .inl h
  · rw [List.getElem?_map, Option.map_eq_some_iff] at h
    obtain ⟨id, hid, rfl⟩ := h
    exact .inr ⟨by omega, id, hid, rfl⟩

/-- Somebody claims rows that are pending. -/
theorem Inv.claimed {w : World} (h : Inv w) (worker batchSize : Nat) (leaseSecs : Int)
    (chosen : List Int) (hsel : selects w.now batchSize chosen w.rows = true) :
    Inv { w with rows := claimPending w.now leaseSecs chosen w.rows,
                 claims := w.claims ++ chosen.map (newClaim worker (w.now + leaseSecs)) } := by
  simp only [selects, Bool.and_eq_true, decide_eq_true_eq, List.all_eq_true, List.any_eq_true,
    beq_iff_eq] at hsel
  obtain ⟨⟨hnodup, -⟩, hall⟩ := hsel
  set w' : World := ⟨w.now, claimPending w.now leaseSecs chosen w.rows,
    w.claims ++ chosen.map (newClaim worker (w.now + leaseSecs))⟩ with hw'
  have hpending {r : Row} (hr : r ∈ w.rows) (hid : r.id ∈ chosen) : r.state = .pending := by
    obtain ⟨s, hs, hsid, hclaim⟩ := hall r.id hid
    rw [eq_of_id h.ids hr hs hsid.symm]
    simp only [Row.claimable, Bool.and_eq_true, beq_iff_eq] at hclaim
    exact hclaim.1
  have hclaims : w'.claims.map Claim.row = w.claims.map Claim.row ++ chosen := by
    simp [hw', newClaim, Function.comp_def]
  have hnew {k : Nat} {id : Int} (hk : chosen[k]? = some id) : Latest w' (w.claims.length + k) := by
    refine ⟨id, by rw [hclaims, List.getElem?_append_right (by simp)]; simpa using hk, ?_⟩
    intro j hj
    rw [hclaims, List.getElem?_append] at hj
    split_ifs at hj with hlt
    · rw [List.length_map] at hlt
      omega
    · rw [List.length_map] at hj hlt
      have hkj := (List.getElem?_inj (List.getElem?_eq_some_iff.mp hk).1 hnodup).mp (hk.trans hj.symm)
      omega
  have hold {j : Nat} {d : Claim} (hd : w.claims[j]? = some d) :
      Latest w' j ↔ Latest w j ∧ d.row ∉ chosen := by
    have hlt : j < w.claims.length := (List.getElem?_eq_some_iff.mp hd).1
    have hj : (w.claims.map Claim.row)[j]? = some d.row := by rw [List.getElem?_map, hd]; rfl
    have hj' : (w'.claims.map Claim.row)[j]? = some d.row := by
      rw [hclaims, List.getElem?_append_left (by simpa using hlt), hj]
    constructor
    · rintro ⟨id, hid, hlast⟩
      obtain rfl := Option.some.inj (hj'.symm.trans hid)
      refine ⟨⟨d.row, hj, fun k hk => hlast k ?_⟩, fun hmem => ?_⟩
      · have hklt := (List.getElem?_eq_some_iff.mp hk).1
        rw [hclaims, List.getElem?_append_left hklt, hk]
      · obtain ⟨k, hk⟩ := List.mem_iff_getElem?.mp hmem
        have hle := hlast (w.claims.length + k) (by
          rw [hclaims, List.getElem?_append_right (by simp)]
          simpa using hk)
        omega
    · rintro ⟨⟨id, hid, hlast⟩, hnot⟩
      obtain rfl := Option.some.inj (hj.symm.trans hid)
      refine ⟨d.row, hj', fun k hk => ?_⟩
      rw [hclaims, List.getElem?_append] at hk
      split_ifs at hk with hklt
      · exact hlast k hk
      · exact absurd (List.mem_of_getElem? hk) hnot
  have hkept {r' : Row} (hr' : r' ∈ w'.rows) (hne : r'.id ∉ chosen) : r' ∈ w.rows := by
    obtain ⟨r, hr, heq⟩ := (mem_update _ _ _ _).mp hr'
    split_ifs at heq with hc
    · exact absurd (by rw [← heq]; simpa using hc) hne
    · exact heq ▸ hr
  have hstays {r : Row} (hr : r ∈ w.rows) (hne : r.id ∉ chosen) : r ∈ w'.rows :=
    (mem_update _ _ _ _).mpr ⟨r, hr, if_neg (by simpa using hne)⟩
  have hids : w'.rows.map Row.id = w.rows.map Row.id := ids_update _ _ _ fun _ => rfl
  -- the old claims are where they were
  have hat {j : Nat} {d : Claim} (hd : w.claims[j]? = some d) : w'.claims[j]? = some d := by
    rw [hw', List.getElem?_append_left (List.getElem?_eq_some_iff.mp hd).1, hd]
  refine ⟨by rw [hids]; exact h.ids, fun r' hr' => ?_, fun r' hr' hp => ?_, fun j d hd hh => ?_,
    fun j d retry message retryable hd hrep hl r hr hid hp => ?_, fun r' hr' hp => ?_⟩
  · obtain ⟨r, hr, rfl⟩ := (mem_update _ _ _ _).mp hr'
    split_ifs
    · exact h.retry r hr
    · exact h.retry r hr
  · by_cases hmem : r'.id ∈ chosen
    · obtain ⟨k, hk⟩ := List.mem_iff_getElem?.mp hmem
      obtain ⟨r, hr, heq⟩ := (mem_update _ _ _ _).mp hr'
      split_ifs at heq with hc
      · refine ⟨w.claims.length + k, newClaim worker (w.now + leaseSecs) r'.id, ?_, rfl, hnew hk, ?_⟩
        · rw [hw', List.getElem?_append_right (by simp)]
          simp [hk]
        · rw [← heq]
          rfl
      · rw [← heq] at hmem
        exact absurd (List.contains_iff_mem.mpr hmem) hc
    · obtain ⟨j, d, hd, hdr, hl, hu⟩ := h.owned r' (hkept hr' hmem) hp
      exact ⟨j, d, hat hd, hdr, (hold hd).mpr ⟨hl, hdr ▸ hmem⟩, hu⟩
  · rcases claim_of_append hd with hd | ⟨hle, id, hk, rfl⟩
    · obtain ⟨hl, r, hr, hid, hp⟩ := h.held j d hd hh
      have hne : r.id ∉ chosen := by
        intro hmem
        rw [hpending hr hmem] at hp
        cases hp
      exact ⟨(hold hd).mpr ⟨hl, hid ▸ hne⟩, r, hstays hr hne, hid, hp⟩
    · have hmem : id ∈ chosen := List.mem_of_getElem? hk
      obtain ⟨s, hs, hsid, -⟩ := hall id hmem
      refine ⟨?_, _, (mem_update _ _ _ _).mpr ⟨s, hs, rfl⟩, ?_⟩
      · have hlatest := hnew hk
        rwa [Nat.add_sub_cancel' hle] at hlatest
      · rw [if_pos (by simpa [hsid] using hmem)]
        exact ⟨hsid, rfl⟩
  · rcases claim_of_append hd with hd | ⟨-, id, -, rfl⟩
    · obtain ⟨hl, hne⟩ := (hold hd).mp hl
      exact h.fetched j d retry message retryable hd hrep hl r (hkept hr (hid ▸ hne)) hid hp
    · cases hrep
  · have hne : r'.id ∉ chosen := by
      intro hmem
      obtain ⟨r, hr, heq⟩ := (mem_update _ _ _ _).mp hr'
      split_ifs at heq with hc
      · rw [← heq] at hp
        cases hp
      · rw [← heq] at hmem
        exact hc (List.contains_iff_mem.mpr hmem)
    obtain ⟨d, hd, hdr, hdd⟩ := h.published r' (hkept hr' hne) hp
    exact ⟨d, List.mem_append_left _ hd, hdr, hdd⟩

/-- Nobody reports a row that was claimed again after his own claim, and no row is recovered before
its lease is over. -/
def Action.InTurn (w : World) : Action → Prop
  | .markPublished i | .markFailedWrite i =>
    ∀ c, w.claims[i]? = some c → (∃ r ∈ w.rows, isProcessing c.row r = true) → Latest w i
  | .recoverStale thresholdSecs => 0 ≤ thresholdSecs
  | _ => True

theorem isProcessing_iff (id : Int) (r : Row) :
    isProcessing id r = true ↔ r.id = id ∧ r.state = .processing := by simp [isProcessing]

theorem fetchRetry_eq_some (id retry : Int) (rows : List Row) (h : fetchRetry id rows = some retry) :
    ∃ r ∈ rows, r.id = id ∧ r.state = .processing ∧ r.retryCount = retry := by
  obtain ⟨r, hr, rfl⟩ := Option.map_eq_some_iff.mp h
  obtain ⟨hid, hp⟩ := (isProcessing_iff id r).mp (List.find?_some hr)
  exact ⟨r, List.mem_of_find?_eq_some hr, hid, hp, rfl⟩

theorem Inv.written {w : World} (h : Inv w) {i : Nat} {c : Claim} {retry : Int} {message : String}
    {retryable : Bool} (hc : w.claims[i]? = some c)
    (hrep : c.report = .fetched retry message retryable)
    (hturn : (∃ r ∈ w.rows, isProcessing c.row r = true) → Latest w i) :
    Inv { w with rows := markFailedWrite w.now c.row retry message retryable w.rows,
                 claims := w.claims.set i { c with report := .made } } := by
  unfold markFailedWrite
  split_ifs with hbudget
  · refine h.reported _ hc hturn (fun _ => rfl) (fun _ => by simp) (fun r hr hproc => ?_)
      fun r hp => by cases hp
    obtain ⟨hid, hp⟩ := (isProcessing_iff _ _).mp hproc
    have heq := h.fetched i c retry message retryable hc hrep (hturn ⟨r, hr, hproc⟩) r hr hid hp
    show r.retryCount + 1 ≤ maxRetryCount
    omega
  · exact h.reported _ hc hturn (fun _ => rfl) (fun _ => by simp) (fun r hr _ => h.retry r hr)
      fun r hp => by cases hp

/-- **What one step keeps.** -/
theorem inv_step {w w' : World} (a : Action) (h : Inv w) (hturn : a.InTurn w)
    (hstep : step w a = some w') : Inv w' := by
  cases a with
  | insert id =>
    simp only [step] at hstep
    split_ifs at hstep with hfresh
    obtain rfl := Option.some.inj hstep
    have hmem {r : Row} (hr : r ∈ w.rows ++ [Row.inserted id]) (hp : r.state ≠ .pending) :
        r ∈ w.rows := by
      rcases List.mem_append.mp hr with hr | hr
      · exact hr
      · obtain rfl := List.mem_singleton.mp hr
        exact absurd rfl hp
    refine ⟨?_, fun r hr => ?_, fun r hr hp => ?_, fun j d hd hh => ?_,
      fun j d retry message retryable hd hrep hl r hr hidr hp => ?_, fun r hr hp => ?_⟩
    · simp only [List.any_eq_true, beq_iff_eq, not_exists, not_and] at hfresh
      rw [List.map_append, List.nodup_append]
      refine ⟨h.ids, by simp, ?_⟩
      intro a ha b hb hab
      obtain ⟨r, hr, rfl⟩ := List.mem_map.mp ha
      obtain rfl : b = id := by simpa [Row.inserted] using hb
      exact hfresh r hr hab
    · rcases List.mem_append.mp hr with hr | hr
      · exact h.retry r hr
      · obtain rfl := List.mem_singleton.mp hr
        show (0 : Int) ≤ 10
        decide
    · exact h.owned r (hmem hr (by rw [hp]; decide)) hp
    · obtain ⟨hl, r, hr, hrp⟩ := h.held j d hd hh
      exact ⟨hl, r, List.mem_append_left _ hr, hrp⟩
    · exact h.fetched j d retry message retryable hd hrep hl r (hmem hr (by rw [hp]; decide)) hidr hp
    · exact h.published r (hmem hr (by rw [hp]; decide)) hp
  | claimPending worker batchSize leaseSecs chosen =>
    simp only [step] at hstep
    split_ifs at hstep with hsel
    obtain rfl := Option.some.inj hstep
    exact h.claimed worker batchSize leaseSecs chosen hsel
  | publish i =>
    obtain ⟨c, hc, hstep⟩ := Option.bind_eq_some_iff.mp hstep
    split_ifs at hstep with hawaited
    obtain rfl := Option.some.inj hstep
    refine h.progress hc rfl rfl (fun _ => rfl) id fun retry message retryable hrep => ?_
    rw [show ({ c with delivered := true } : Claim).report = c.report from rfl, hawaited] at hrep
    cases hrep
  | markPublished i =>
    obtain ⟨c, hc, hstep⟩ := Option.bind_eq_some_iff.mp hstep
    split_ifs at hstep with hready
    obtain rfl := Option.some.inj hstep
    exact h.reported _ hc (hturn c hc) (fun _ => rfl) (fun _ => by simp)
      (fun r hr _ => h.retry r hr) fun _ _ => hready.2
  | markFailed i message retryable =>
    obtain ⟨c, hc, hstep⟩ := Option.bind_eq_some_iff.mp hstep
    split_ifs at hstep with hawaited
    obtain rfl := Option.some.inj hstep
    cases hfetch : fetchRetry c.row w.rows with
    | none =>
      refine h.progress hc rfl rfl id (fun hne => absurd ?_ hne) fun retry message retryable hrep => ?_
      · simp
      · simp at hrep
    | some current =>
      refine h.progress hc rfl rfl id (fun _ => by rw [hawaited]; simp)
        fun retry' message' retryable' hrep r hr hid hp => ?_
      simp only [Report.fetched.injEq] at hrep
      obtain ⟨s, hs, hsid, -, hretry⟩ := fetchRetry_eq_some _ _ _ hfetch
      rw [eq_of_id h.ids hr hs (hid.trans hsid.symm), hretry]
      exact hrep.1
  | markFailedWrite i =>
    obtain ⟨c, hc, hstep⟩ := Option.bind_eq_some_iff.mp hstep
    split at hstep
    · rename_i retry message retryable hrep
      obtain rfl := Option.some.inj hstep
      exact h.written hc hrep (hturn c hc)
    · cases hstep
  | recoverStale thresholdSecs =>
    obtain rfl := Option.some.inj hstep
    exact h.recovered thresholdSecs hturn
  | tick secs =>
    obtain rfl := Option.some.inj hstep
    refine ⟨h.ids, h.retry, h.owned, fun j d hd hh => h.held j d hd ⟨hh.1, ?_⟩, h.fetched,
      h.published⟩
    have hlater := hh.2
    simp only at hlater
    omega

/-! ## Runs -/

/-- The worlds that a run reaches whose steps all meet the condition. -/
inductive Reached (ok : World → Action → Prop) : World → Prop
  | start (now : Int) : Reached ok ⟨now, [], []⟩
  | step {w w' : World} (a : Action) (h : Reached ok w) (hok : ok w a)
      (hstep : step w a = some w') : Reached ok w'

theorem inv_reached {w : World} (h : Reached (fun w a => a.InTurn w) w) : Inv w := by
  induction h with
  | start now =>
    exact ⟨List.nodup_nil, by simp, by simp, by simp, by simp, by simp⟩
  | step a _ hok hstep ih => exact inv_step a ih hok hstep

/-- A row that is not terminal can be taken up, now or when its time has come. -/
def Row.Alive (now : Int) (r : Row) : Prop :=
  r.claimable now = true ∨
    (∃ t, r.leasedUntil = some t ∧ now < t ∧ ∀ later, t ≤ later → r.claimable later = true) ∨
    ∃ t, r.leasedUntil = some t ∧
      ∀ threshold later, t + threshold < later → r.stale later threshold = true

/-- What the hand-off promises of a state. -/
structure StateSafe (w : World) : Prop where
  published : ∀ r ∈ w.rows, r.state = .published → ∃ c ∈ w.claims, c.row = r.id ∧
    c.delivered = true
  exclusive : ∀ (i j : Nat) (c d : Claim), w.claims[i]? = some c → w.claims[j]? = some d → c.row = d.row →
    c.Holds w.now → d.Holds w.now → i = j
  retry : ∀ r ∈ w.rows, r.retryCount ≤ maxRetryCount
  alive : ∀ r ∈ w.rows, r.state.isTerminal = false → r.Alive w.now

/-- The statements of the report on a claim. -/
def Action.IsReport (i : Nat) : Action → Prop
  | .markPublished j | .markFailed j _ _ | .markFailedWrite j => j = i
  | _ => False

/-- What the hand-off promises of a step. -/
structure StepSafe (w : World) (a : Action) (w' : World) : Prop where
  terminal : ∀ r ∈ w.rows, r.state.isTerminal = true → r ∈ w'.rows
  failed : ∀ r ∈ w.rows, r.state ≠ .failed → ∀ r' ∈ w'.rows, r'.id = r.id →
    r'.state = .failed → ∃ i c, a = .markFailedWrite i ∧ w.claims[i]? = some c ∧ c.row = r.id ∧
      Latest w i
  stale : ∀ i, a.IsReport i → ¬ Latest w i → w'.rows = w.rows

theorem Inv.stateSafe {w : World} (h : Inv w) : StateSafe w := by
  refine ⟨h.published, fun i j c d hc hd hrow hi hj => ?_, h.retry, fun r hr hlive => ?_⟩
  · exact (h.held i c hc hi).1.unique (h.held j d hd hj).1 hc hd hrow
  · cases hs : r.state with
    | pending =>
      cases hu : r.leasedUntil with
      | none => exact .inl (by simp [Row.claimable, hs, hu])
      | some t =>
        by_cases ht : t ≤ w.now
        · exact .inl (by simp [Row.claimable, hs, hu, ht])
        · exact .inr (.inl ⟨t, hu, by omega, fun later hle => by
            simp [Row.claimable, hs, hu, hle]⟩)
    | processing =>
      obtain ⟨-, c, -, -, -, hu⟩ := h.owned r hr hs
      refine .inr (.inr ⟨c.leasedUntil, hu, fun threshold later hlater => ?_⟩)
      have hstale : c.leasedUntil < later - threshold := by omega
      simp [Row.stale, hs, hu, hstale]
    | published | failed =>
      rw [hs] at hlive
      cases hlive

theorem update_eq_self (p : Row → Bool) (f : Row → Row) (rows : List Row)
    (h : ¬ ∃ r ∈ rows, p r = true) : update p f rows = rows := by
  refine (List.map_congr_left fun r hr => if_neg fun hp => h ⟨r, hr, hp⟩).trans ?_
  exact List.map_id rows

/-- A step that changes only rows of one state leaves the other rows alone. -/
theorem mem_update_of_state {p : Row → Bool} {f : Row → Row} {rows : List Row} {r : Row}
    (hr : r ∈ rows) (hp : p r = false) : r ∈ update p f rows :=
  (mem_update _ _ _ _).mpr ⟨r, hr, by rw [hp]; rfl⟩

/-- A report that is not in turn finds no row to change. -/
theorem update_of_not_latest {w : World} {i : Nat} {c : Claim} (f : Row → Row)
    (hturn : (∃ r ∈ w.rows, isProcessing c.row r = true) → Latest w i) (hl : ¬ Latest w i) :
    update (isProcessing c.row) f w.rows = w.rows :=
  update_eq_self _ _ _ fun hex => hl (hturn hex)

theorem Inv.stepSafe {w w' : World} (a : Action) (h : Inv w) (hturn : a.InTurn w)
    (hstep : step w a = some w') : StepSafe w a w' := by
  have hsame {r r' : Row} (hr : r ∈ w.rows) (hne : r.state ≠ .failed) (hr' : r' ∈ w.rows)
      (hid : r'.id = r.id) : r'.state ≠ .failed := by
    rwa [eq_of_id h.ids hr' hr hid]
  have hquiet {r : Row} (id : Int) (hterminal : r.state.isTerminal = true) :
      isProcessing id r = false := by
    cases hs : r.state <;> simp [isProcessing, hs, RowState.isTerminal] at hterminal ⊢
  -- rows of a step that fails none
  have hnone {p : Row → Bool} {f : Row → Row} (hf : ∀ r, (f r).state ≠ .failed) {r r' : Row}
      (hr : r ∈ w.rows) (hne : r.state ≠ .failed) (hr' : r' ∈ update p f w.rows)
      (hid : r'.id = r.id) : r'.state ≠ .failed := by
    obtain ⟨s, hs, heq⟩ := (mem_update _ _ _ _).mp hr'
    split_ifs at heq
    · exact heq ▸ hf s
    · exact hsame hr hne (heq ▸ hs) hid
  cases a with
  | insert id =>
    simp only [step] at hstep
    split_ifs at hstep
    obtain rfl := Option.some.inj hstep
    refine ⟨fun r hr _ => List.mem_append_left _ hr, fun r hr hne r' hr' hid hf => ?_,
      fun _ hrep => hrep.elim⟩
    rcases List.mem_append.mp hr' with hr' | hr'
    · exact absurd hf (hsame hr hne hr' hid)
    · obtain rfl := List.mem_singleton.mp hr'
      cases hf
  | claimPending worker batchSize leaseSecs chosen =>
    simp only [step] at hstep
    split_ifs at hstep with hsel
    obtain rfl := Option.some.inj hstep
    refine ⟨fun r hr hterminal => mem_update_of_state hr ?_,
      fun r hr hne r' hr' hid hf => absurd hf (hnone (fun _ => by simp) hr hne hr' hid),
      fun _ hrep => hrep.elim⟩
    by_contra hmem
    have hmem : r.id ∈ chosen := by simpa using hmem
    simp only [selects, Bool.and_eq_true, List.all_eq_true, List.any_eq_true, beq_iff_eq] at hsel
    obtain ⟨s, hs, hsid, hclaim⟩ := hsel.2 r.id hmem
    rw [eq_of_id h.ids hs hr hsid] at hclaim
    cases hst : r.state <;> simp [Row.claimable, hst, RowState.isTerminal] at hclaim hterminal
  | publish i =>
    obtain ⟨c, hc, hstep⟩ := Option.bind_eq_some_iff.mp hstep
    split_ifs at hstep
    obtain rfl := Option.some.inj hstep
    exact ⟨fun r hr _ => hr, fun r hr hne r' hr' hid hf => absurd hf (hsame hr hne hr' hid),
      fun _ hrep => hrep.elim⟩
  | markPublished i =>
    obtain ⟨c, hc, hstep⟩ := Option.bind_eq_some_iff.mp hstep
    split_ifs at hstep
    obtain rfl := Option.some.inj hstep
    refine ⟨fun r hr hterminal => mem_update_of_state hr (hquiet _ hterminal),
      fun r hr hne r' hr' hid hf => absurd hf (hnone (fun _ => by simp) hr hne hr' hid),
      fun j hrep hl => ?_⟩
    obtain rfl : i = j := hrep
    exact update_of_not_latest _ (hturn c hc) hl
  | markFailed i message retryable =>
    obtain ⟨c, hc, hstep⟩ := Option.bind_eq_some_iff.mp hstep
    split_ifs at hstep
    obtain rfl := Option.some.inj hstep
    exact ⟨fun r hr _ => hr, fun r hr hne r' hr' hid hf => absurd hf (hsame hr hne hr' hid),
      fun _ _ _ => rfl⟩
  | markFailedWrite i =>
    obtain ⟨c, hc, hstep⟩ := Option.bind_eq_some_iff.mp hstep
    split at hstep
    · obtain rfl := Option.some.inj hstep
      have hstale (j : Nat) (hrep : (Action.markFailedWrite i).IsReport j) (hl : ¬ Latest w j)
          (f : Row → Row) : update (isProcessing c.row) f w.rows = w.rows := by
        obtain rfl : i = j := hrep
        exact update_of_not_latest f (hturn c hc) hl
      simp only [markFailedWrite]
      split_ifs
      · exact ⟨fun r hr hterminal => mem_update_of_state hr (hquiet _ hterminal),
          fun r hr hne r' hr' hid hf => absurd hf (hnone (fun _ => by simp) hr hne hr' hid),
          fun j hrep hl => hstale j hrep hl _⟩
      · refine ⟨fun r hr hterminal => mem_update_of_state hr (hquiet _ hterminal),
          fun r hr hne r' hr' hid hf => ?_, fun j hrep hl => hstale j hrep hl _⟩
        obtain ⟨s, hs, heq⟩ := (mem_update _ _ _ _).mp hr'
        split_ifs at heq with hproc
        · obtain ⟨hsid, -⟩ := (isProcessing_iff _ _).mp hproc
          have hids : s.id = r.id := by rw [← hid, ← heq]
          exact ⟨i, c, rfl, hc, hsid.symm.trans hids, hturn c hc ⟨s, hs, hproc⟩⟩
        · exact absurd hf (hsame hr hne (heq ▸ hs) hid)
    · cases hstep
  | recoverStale thresholdSecs =>
    obtain rfl := Option.some.inj hstep
    refine ⟨fun r hr hterminal => mem_update_of_state hr ?_,
      fun r hr hne r' hr' hid hf => absurd hf (hnone (fun _ => by simp) hr hne hr' hid),
      fun _ hrep => hrep.elim⟩
    cases hs : r.state <;> simp [Row.stale, hs, RowState.isTerminal] at hterminal ⊢
  | tick secs =>
    obtain rfl := Option.some.inj hstep
    exact ⟨fun r hr _ => hr, fun r hr hne r' hr' hid hf => absurd hf (hsame hr hne hr' hid),
      fun _ hrep => hrep.elim⟩

/-- **The hand-off is safe** in every state and every step of a run in which nobody reports out of
turn and no row is recovered before its lease is over. -/
theorem handoff_safe (w : World) (h : Reached (fun w a => a.InTurn w) w) :
    StateSafe w ∧ ∀ a w', a.InTurn w → step w a = some w' → StepSafe w a w' :=
  ⟨(inv_reached h).stateSafe, fun a _ hturn hstep => (inv_reached h).stepSafe a hturn hstep⟩

/-- A report before the lease is over is in turn. -/
theorem inTurn_of_held {w : World} (h : Reached (fun w a => a.InTurn w) w) (i : Nat)
    (hheld : ∀ c, w.claims[i]? = some c → c.Holds w.now) :
    (Action.markPublished i).InTurn w ∧ (Action.markFailedWrite i).InTurn w := by
  have hlatest : ∀ c, w.claims[i]? = some c → Latest w i := fun c hc =>
    ((inv_reached h).held i c hc (hheld c hc)).1
  exact ⟨fun c hc _ => hlatest c hc, fun c hc _ => hlatest c hc⟩

/-! ## A stale report -/

/-- A row is claimed, its lease runs out, it is recovered and claimed by another worker; then the
first worker gives up. -/
def staleRun : List Action :=
  [.insert 7, .claimPending 0 1 10 [7], .tick 11, .recoverStale 0, .claimPending 1 1 10 [7],
    .markFailed 0 "timed out" false]

def run (w : World) : List Action → Option World
  | [] => some w
  | a :: as => (step w a).bind fun w' => run w' as

theorem reached_run {ok : World → Action → Prop} (hok : ∀ w a, ok w a) (as : List Action)
    {w w' : World} (h : Reached ok w) (hrun : run w as = some w') : Reached ok w' := by
  induction as generalizing w with
  | nil =>
    obtain rfl := Option.some.inj hrun
    exact h
  | cons a as ih =>
    obtain ⟨v, hv, hrun⟩ := Option.bind_eq_some_iff.mp hrun
    exact ih (.step a h (hok w a) hv) hrun

def staleWorld : World where
  now := 11
  rows := [⟨7, .processing, 0, some 21, none⟩]
  claims := [⟨0, 7, 10, false, .fetched 0 "timed out" false⟩, ⟨1, 7, 21, false, .awaited⟩]

/-- **A stale report** fails a row that another worker holds. -/
theorem handoff_stale_failure :
    Reached (fun _ _ => True) staleWorld ∧
      ∃ w', step staleWorld (.markFailedWrite 0) = some w' ∧
        ¬ StepSafe staleWorld (.markFailedWrite 0) w' := by
  refine ⟨reached_run (fun _ _ => trivial) staleRun (.start 0) rfl, _, rfl, fun hsafe => ?_⟩
  have hlatest : ¬ Latest staleWorld 0 := by
    rintro ⟨id, hid, hlast⟩
    obtain rfl : 7 = id := Option.some.inj hid
    exact absurd (hlast 1 rfl) (by decide)
  exact absurd (hsafe.stale 0 rfl hlatest) (by decide)

/-! ## Reports in turn -/

/-- The condition, as a test. -/
def Action.inTurn (w : World) : Action → Bool
  | .markPublished i | .markFailedWrite i => (w.claims[i]?).all fun c =>
      !w.rows.any (isProcessing c.row) || (w.claims.drop (i + 1)).all (·.row != c.row)
  | .recoverStale thresholdSecs => 0 ≤ thresholdSecs
  | _ => true

def runInTurn (w : World) : List Action → Option World
  | [] => some w
  | a :: as => if a.inTurn w then (step w a).bind fun w' => runInTurn w' as else none

theorem latest_of_drop {w : World} {i : Nat} {c : Claim} (hc : w.claims[i]? = some c)
    (h : (w.claims.drop (i + 1)).all (·.row != c.row) = true) : Latest w i := by
  refine ⟨c.row, by rw [List.getElem?_map, hc]; rfl, fun j hj => ?_⟩
  rw [List.getElem?_map, Option.map_eq_some_iff] at hj
  obtain ⟨d, hd, hrow⟩ := hj
  by_contra hlt
  have hmem : d ∈ w.claims.drop (i + 1) := by
    refine List.mem_of_getElem? (i := j - (i + 1)) ?_
    rw [List.getElem?_drop, show i + 1 + (j - (i + 1)) = j by omega, hd]
  have hne := List.all_eq_true.mp h d hmem
  simp [hrow] at hne

theorem inTurn_of_test (w : World) (a : Action) (h : a.inTurn w = true) : a.InTurn w := by
  have hreport (i : Nat) (htest : (w.claims[i]?).all (fun c =>
      !w.rows.any (isProcessing c.row) || (w.claims.drop (i + 1)).all (·.row != c.row)) = true)
      (c : Claim) (hc : w.claims[i]? = some c) (hr : ∃ r ∈ w.rows, isProcessing c.row r = true) :
      Latest w i := by
    rw [hc, Option.all_some, List.any_eq_true.mpr hr] at htest
    exact latest_of_drop hc htest
  cases a with
  | markPublished i => exact hreport i h
  | markFailedWrite i => exact hreport i h
  | recoverStale thresholdSecs => exact of_decide_eq_true (p := 0 ≤ thresholdSecs) h
  | _ => trivial

theorem reached_runInTurn (as : List Action) {w w' : World}
    (h : Reached (fun w a => a.InTurn w) w) (hrun : runInTurn w as = some w') :
    Reached (fun w a => a.InTurn w) w' := by
  induction as generalizing w with
  | nil =>
    obtain rfl := Option.some.inj hrun
    exact h
  | cons a as ih =>
    rw [runInTurn] at hrun
    split_ifs at hrun with hturn
    obtain ⟨v, hv, hrun⟩ := Option.bind_eq_some_iff.mp hrun
    exact ih (.step a h (inTurn_of_test w a hturn) hv) hrun

/-- A worker takes two rows, delivers one and hangs. The other row is recovered and claimed by a
second worker, whose failure puts it back; then the first one wakes up and reports it published,
and a third worker claims it. -/
def reclaimed : List Action :=
  [.insert 7, .insert 8, .claimPending 0 2 10 [7, 8], .publish 0, .markPublished 0, .publish 1,
    .tick 11, .recoverStale 0, .claimPending 1 1 10 [8], .markFailed 2 "timed out" true,
    .markFailedWrite 2, .markPublished 1, .tick 2, .claimPending 2 1 10 [8]]

/-- The late report changed nothing. -/
theorem handoff_safe_reclaimed : ∃ w, runInTurn ⟨0, [], []⟩ reclaimed = some w ∧
    w.rows = [⟨7, .published, 0, some 10, none⟩,
      ⟨8, .processing, 1, some 23, some "timed out"⟩] ∧
    StateSafe w ∧ ∀ a w', a.InTurn w → step w a = some w' → StepSafe w a w' :=
  ⟨_, rfl, rfl, handoff_safe _ (reached_runInTurn reclaimed (.start 0) rfl)⟩

end Djogi.Outbox
