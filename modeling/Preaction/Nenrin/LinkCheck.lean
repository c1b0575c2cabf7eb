import Preaction.Nenrin.Verify

/-!
# R3: the chain of the observations

The loop over the observations is read once, in `linkFault_cons`: a linked
observation is passed, a `prev_evidence_id` without a hash raises, and any other
observation breaks the chain. `chainFault_ok_none_iff` and `chainFault_error` are
what the whole check comes to.
-/

namespace Preaction.Nenrin

open Preaction.Py Report

variable {R : Runtime}

/-! ## The link check -/

/-- A `seq` is missing, or the `seq`s are not the numbers from zero on. -/
def Gap (obs : List Record) : Prop :=
  (obs.any (fun o => (seqOf o).isNone) || !gapless (obs.filterMap seqOf)) = true

instance (obs : List Record) : Decidable (Gap obs) := inferInstanceAs (Decidable (_ = _))

/-- R3 takes the observation: a root with no predecessor, or a hop that names the
digest of an observation one `seq` before it. -/
inductive Linked (R : Runtime) (obs : List Record) (o : Record) : Prop
  | root (hseq : seqOf o = some 0) (hprev : o.lookup (lit "prev_evidence_id") = some .null)
  | hop {s : Int} {h : Str} {p : Record} (hseq : seqOf o = some s) (hs : s ≠ 0)
      (hprev : o.lookup (lit "prev_evidence_id") = some (.str h)) (hp : p ∈ obs)
      (hpred : seqOf p = some (s - 1)) (hrid : rid R p .obs = some h)

/-- A hop behind the first with a list or a dict for its `prev_evidence_id`. -/
structure Unhashable (o : Record) : Prop where
  seq : ∃ s, seqOf o = some s ∧ s ≠ 0
  prev : ∃ v, o.lookup (lit "prev_evidence_id") = some v ∧ Json.hashable v ≠ .ok ()

/-- R3 comes to a `prev_evidence_id` that has no hash: there is no gap, and every
observation listed before it is linked. -/
def ReachesUnhashable (R : Runtime) (obs : List Record) : Prop :=
  ¬ Gap obs ∧ ∃ pre o post, obs = pre ++ o :: post ∧ (∀ p ∈ pre, Linked R obs p) ∧ Unhashable o

/-- The observations that have a `seq`, each with it. -/
def links (obs : List Record) : List (Record × Int) := obs.filterMap fun o => (seqOf o).map (o, ·)

theorem mem_links {obs : List Record} {o : Record} {s : Int} :
    (o, s) ∈ links obs ↔ o ∈ obs ∧ seqOf o = some s := by
  unfold links
  rw [List.mem_filterMap]
  constructor
  · rintro ⟨p, hp, hmap⟩
    obtain ⟨t, ht, heq⟩ := Option.map_eq_some_iff.mp hmap
    obtain ⟨rfl, rfl⟩ := Prod.mk.inj heq
    exact ⟨hp, ht⟩
  · rintro ⟨ho, hs⟩
    exact ⟨o, ho, by rw [hs, Option.map_some]⟩

theorem links_cons {o : Record} {s : Int} (hs : seqOf o = some s) (obs : List Record) :
    links (o :: obs) = (o, s) :: links obs := by
  unfold links
  rw [List.filterMap_cons, hs, Option.map_some]

/-- A value is among the digests of one `seq` when it is the digest of an observation there. -/
theorem pyIn_idsAt {obs : List Record} {s : Int} {v : Json} (hv : v ≠ .null) :
    Json.pyIn v (idsAt R (links obs) s) = true ↔
      ∃ h p, v = .str h ∧ p ∈ obs ∧ seqOf p = some s ∧ rid R p .obs = some h := by
  unfold Json.pyIn idsAt
  rw [List.any_eq_true]
  constructor
  · rintro ⟨w, hw, hsame⟩
    obtain ⟨⟨p, t⟩, hp, rfl⟩ := List.mem_map.mp hw
    obtain ⟨hmem, ht⟩ := List.mem_filter.mp hp
    obtain ⟨hobs, hseq⟩ := mem_links.mp hmem
    obtain rfl : t = s := beq_iff_eq.mp ht
    unfold ridValue at hsame
    split at hsame
    next h hrid => exact ⟨h, p, (Json.pySame_str v h).mp hsame, hobs, hseq, hrid⟩
    next => exact absurd ((Json.pySame_null v).mp hsame) hv
  · rintro ⟨h, p, rfl, hobs, hseq, hrid⟩
    refine ⟨.str h, List.mem_map.mpr ⟨(p, s), ?_, ?_⟩, Json.pySame_refl _⟩
    · exact List.mem_filter.mpr ⟨mem_links.mpr ⟨hobs, hseq⟩, beq_self_eq_true s⟩
    · unfold ridValue
      rw [hrid]

/-- One step of the loop: a linked observation is passed, a value without a hash
raises, and any other breaks the chain. -/
theorem linkFault_cons (obs : List Record) {o : Record} {s : Int} (hs : seqOf o = some s)
    (rest : List (Record × Int)) :
    (Linked R obs o ∧ ¬ Unhashable o ∧
      linkFault R (links obs) ((o, s) :: rest) = linkFault R (links obs) rest) ∨
    (¬ Linked R obs o ∧ Unhashable o ∧ ∃ e, linkFault R (links obs) ((o, s) :: rest) = .error e) ∨
    (¬ Linked R obs o ∧ ¬ Unhashable o ∧
      ∃ why, linkFault R (links obs) ((o, s) :: rest) = .ok (some why)) := by
  rw [linkFault]
  by_cases hzero : s = 0
  · have hhash : ¬ Unhashable o := by
      rintro ⟨⟨t, ht, hne⟩, -⟩
      rw [hs] at ht
      exact hne (Option.some.inj ht ▸ hzero)
    rw [if_pos hzero]
    by_cases hprev : o.lookup (lit "prev_evidence_id") = some .null
    · rw [if_pos hprev]
      exact .inl ⟨.root (hzero ▸ hs) hprev, hhash, rfl⟩
    · rw [if_neg hprev]
      refine .inr (.inr ⟨?_, hhash, _, rfl⟩)
      rintro (⟨-, hnull⟩ | ⟨hseq, hne, -, -, -, -⟩)
      · exact hprev hnull
      · rw [hs] at hseq
        exact hne (Option.some.inj hseq ▸ hzero)
  · rw [if_neg hzero]
    -- what a hop has to say of its predecessor
    have hlinked : Linked R obs o → ∃ h p, o.lookup (lit "prev_evidence_id") = some (.str h) ∧
        p ∈ obs ∧ seqOf p = some (s - 1) ∧ rid R p .obs = some h := by
      rintro (⟨hroot, -⟩ | ⟨hseq, -, hprev, hp, hpred, hrid⟩)
      · rw [hs] at hroot
        exact absurd (Option.some.inj hroot) hzero
      · rw [hs] at hseq
        obtain rfl := Option.some.inj hseq
        exact ⟨_, _, hprev, hp, hpred, hrid⟩
    split
    next hnone =>
      refine .inr (.inr ⟨fun hl => ?_, fun hu => ?_, _, rfl⟩)
      · obtain ⟨h, p, hprev, -⟩ := hlinked hl
        rw [hnone] at hprev
        cases hprev
      · obtain ⟨v, hv, -⟩ := hu.prev
        rw [hnone] at hv
        cases hv
    next hnull =>
      refine .inr (.inr ⟨fun hl => ?_, fun hu => ?_, _, rfl⟩)
      · obtain ⟨h, p, hprev, -⟩ := hlinked hl
        rw [hnull] at hprev
        cases hprev
      · obtain ⟨v, hv, hhash⟩ := hu.prev
        rw [hnull] at hv
        obtain rfl := Option.some.inj hv
        exact hhash rfl
    next pv hnull hpv =>
      have hne : pv ≠ .null := hnull
      cases hhash : Json.hashable pv with
      | error e =>
        refine .inr (.inl ⟨fun hl => ?_, ⟨⟨s, hs, hzero⟩, pv, hpv, ?_⟩, e, rfl⟩)
        · obtain ⟨h, p, hprev, -⟩ := hlinked hl
          rw [hpv] at hprev
          obtain rfl := Option.some.inj hprev
          cases hhash
        · rw [hhash]
          intro h
          cases h
      | ok u =>
        have hnot : ¬ Unhashable o := by
          rintro ⟨-, v, hv, hbad⟩
          rw [hpv] at hv
          obtain rfl := Option.some.inj hv
          exact hbad hhash
        by_cases hin : Json.pyIn pv (idsAt R (links obs) (s - 1)) = true
        · obtain ⟨h, p, rfl, hp, hpred, hrid⟩ := (pyIn_idsAt hne).mp hin
          refine .inl ⟨.hop hs hzero hpv hp hpred hrid, hnot, ?_⟩
          show (if _ then _ else _) = _
          rw [if_pos hin]
        · refine .inr (.inr ⟨fun hl => ?_, hnot, .brokenLink, ?_⟩)
          · obtain ⟨h, p, hprev, hp, hpred, hrid⟩ := hlinked hl
            rw [hpv] at hprev
            obtain rfl := Option.some.inj hprev
            exact hin ((pyIn_idsAt hne).mpr ⟨h, p, rfl, hp, hpred, hrid⟩)
          · show (if _ then _ else _) = _
            rw [if_neg hin]
            rfl

theorem linkFault_error {obs xs : List Record} (hxs : ∀ o ∈ xs, (seqOf o).isSome = true) :
    (∃ e, linkFault R (links obs) (links xs) = .error e) ↔
      ∃ pre o post, xs = pre ++ o :: post ∧ (∀ p ∈ pre, Linked R obs p) ∧ Unhashable o := by
  induction xs with
  | nil =>
    constructor
    · rintro ⟨e, he⟩
      cases he
    · rintro ⟨pre, o, post, h, -⟩
      exact absurd h.symm (List.append_ne_nil_of_right_ne_nil _ (List.cons_ne_nil _ _))
  | cons o xs ih =>
    obtain ⟨ho, hxs⟩ := List.forall_mem_cons.mp hxs
    obtain ⟨s, hs⟩ := Option.isSome_iff_exists.mp ho
    -- an observation that is not linked ends the loop
    have hfirst (hl : ¬ Linked R obs o) : (∃ pre p post, o :: xs = pre ++ p :: post ∧
        (∀ q ∈ pre, Linked R obs q) ∧ Unhashable p) ↔ Unhashable o := by
      constructor
      · rintro ⟨pre, p, post, heq, hpre, hp⟩
        cases pre with
        | nil => exact (List.cons.inj heq).1 ▸ hp
        | cons q pre =>
          obtain ⟨rfl, -⟩ := List.cons.inj heq
          exact absurd (hpre _ List.mem_cons_self) hl
      · intro hu
        exact ⟨[], o, xs, rfl, nofun, hu⟩
    rw [links_cons hs]
    rcases linkFault_cons (R := R) obs hs (links xs) with
      ⟨hl, hu, heq⟩ | ⟨hl, hu, e, heq⟩ | ⟨hl, hu, why, heq⟩
    · rw [heq, ih hxs]
      constructor
      · rintro ⟨pre, p, post, rfl, hpre, hp⟩
        exact ⟨o :: pre, p, post, rfl, List.forall_mem_cons.mpr ⟨hl, hpre⟩, hp⟩
      · rintro ⟨pre, p, post, hsplit, hpre, hp⟩
        cases pre with
        | nil => exact absurd ((List.cons.inj hsplit).1 ▸ hp) hu
        | cons q pre =>
          obtain ⟨-, rfl⟩ := List.cons.inj hsplit
          exact ⟨pre, p, post, rfl, (List.forall_mem_cons.mp hpre).2, hp⟩
    · rw [heq, hfirst hl]
      exact ⟨fun _ => hu, fun _ => ⟨e, rfl⟩⟩
    · rw [heq, hfirst hl]
      exact ⟨fun ⟨_, he⟩ => (nomatch he), fun h => absurd h hu⟩

theorem linkFault_none {obs xs : List Record} (hxs : ∀ o ∈ xs, (seqOf o).isSome = true) :
    linkFault R (links obs) (links xs) = .ok none ↔ ∀ o ∈ xs, Linked R obs o := by
  induction xs with
  | nil => exact ⟨fun _ => nofun, fun _ => rfl⟩
  | cons o xs ih =>
    obtain ⟨ho, hxs⟩ := List.forall_mem_cons.mp hxs
    obtain ⟨s, hs⟩ := Option.isSome_iff_exists.mp ho
    rw [links_cons hs, List.forall_mem_cons]
    rcases linkFault_cons (R := R) obs hs (links xs) with
      ⟨hl, -, heq⟩ | ⟨hl, -, e, heq⟩ | ⟨hl, -, why, heq⟩
    · rw [heq, ih hxs]
      exact ⟨fun h => ⟨hl, h⟩, fun h => h.2⟩
    · rw [heq]
      exact ⟨fun he => (nomatch he), fun h => absurd h.1 hl⟩
    · rw [heq]
      exact ⟨fun he => (nomatch he), fun h => absurd h.1 hl⟩

/-! ## R3 -/

theorem chainFault_of_gap {obs : List Record} (h : Gap obs) :
    chainFault R obs = .ok (some .seqGap) := by
  unfold chainFault
  exact if_pos h

theorem chainFault_of_not_gap {obs : List Record} (h : ¬ Gap obs) :
    chainFault R obs = linkFault R (links obs) (links obs) := by
  unfold chainFault
  exact if_neg h

theorem isSome_of_not_gap {obs : List Record} (h : ¬ Gap obs) :
    ∀ o ∈ obs, (seqOf o).isSome = true := by
  intro o ho
  unfold Gap at h
  rw [Bool.or_eq_true, not_or, List.any_eq_true] at h
  by_contra hnone
  exact h.1 ⟨o, ho, Option.isNone_iff_eq_none.mpr (Option.not_isSome_iff_eq_none.mp hnone)⟩

theorem gapless_of_not_gap {obs : List Record} (h : ¬ Gap obs) :
    gapless (obs.filterMap seqOf) = true := by
  unfold Gap at h
  rw [Bool.or_eq_true, not_or, Bool.not_eq_true, Bool.not_eq_true, Bool.not_eq_false'] at h
  exact h.2

/-- R3 raises where it comes to a value without a hash. -/
theorem chainFault_error {obs : List Record} :
    (∃ e, chainFault R obs = .error e) ↔ ReachesUnhashable R obs := by
  unfold ReachesUnhashable
  by_cases h : Gap obs
  · rw [chainFault_of_gap h]
    exact ⟨fun ⟨_, he⟩ => (nomatch he), fun hr => absurd h hr.1⟩
  · rw [chainFault_of_not_gap h, linkFault_error (isSome_of_not_gap h)]
    exact ⟨fun hr => ⟨h, hr⟩, fun hr => hr.2⟩

/-- R3 passes a chain without a gap in which every observation is linked. -/
theorem chainFault_ok_none_iff {obs : List Record} :
    chainFault R obs = .ok none ↔ ¬ Gap obs ∧ ∀ o ∈ obs, Linked R obs o := by
  by_cases h : Gap obs
  · rw [chainFault_of_gap h]
    exact ⟨fun he => (nomatch he), fun hr => absurd h hr.1⟩
  · rw [chainFault_of_not_gap h, linkFault_none (isSome_of_not_gap h)]
    exact ⟨fun hr => ⟨h, hr⟩, fun hr => hr.2⟩

end Preaction.Nenrin
