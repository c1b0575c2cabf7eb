import Mathlib.Data.List.Basic

/-!
# Patterns with groups

Regular expressions as a backtracking engine runs them. `runs` lists the matches of a
pattern at the front of a text in the order the engine tries them, repetitions greedily,
each with what the groups took and with the rest of the text; a full match is the first
of them that leaves nothing.

`Matches` says what a pattern matches without any order. The engine finds just that
(`mem_runs`), so where a text can be taken apart in one way only, a full match is the
match (`fullMatch_eq_some`). The order matters only where it cannot.

A repetition ends when its body matches the empty text.
-/

namespace Preaction.Pattern

variable {α : Type}

inductive Regex (α : Type)
  | empty
  | one (p : α → Bool)
  | seq (a b : Regex α)
  | star (a : Regex α)
  | group (k : Nat) (a : Regex α)

/-- What the groups took, the last one last. -/
abbrev Captures (α : Type) : Type := List (Nat × List α)

/-- A match at the front of a text: what the groups took, and the rest. -/
abbrev Run (α : Type) : Type := Captures α × List α

/-- The match, behind what was taken before. -/
def Run.behind (m r : Run α) : Run α := (m.1 ++ r.1, r.2)

/-- The repetition of what `step` matches, at most `n` times. -/
def starRuns (step : List α → List (Run α)) : Nat → List α → List (Run α)
  | 0, s => [([], s)]
  | n + 1, s =>
    ((step s).filter fun m => m.2.length < s.length).flatMap
      (fun m => (starRuns step n m.2).map (Run.behind m)) ++ [([], s)]

/-- The matches at the front of a text, in the order of the attempts. -/
def runs : Regex α → List α → List (Run α)
  | .empty, s => [([], s)]
  | .one p, s =>
    match s with
    | [] => []
    | c :: s => if p c then [([], s)] else []
  | .seq a b, s => (runs a s).flatMap fun m => (runs b m.2).map (Run.behind m)
  | .star a, s => starRuns (runs a) s.length s
  | .group k a, s =>
    (runs a s).map fun m => (m.1 ++ [(k, s.take (s.length - m.2.length))], m.2)

/-- The match of the whole text. -/
def fullMatch (a : Regex α) (s : List α) : Option (Captures α) :=
  ((runs a s).find? (·.2.isEmpty)).map (·.1)

/-- What the group took last. -/
def Captures.group (cs : Captures α) (k : Nat) : Option (List α) := cs.reverse.lookup k

/-! ## The language of a pattern -/

/-- The pattern matches the text, and its groups take these parts. -/
inductive Matches : Regex α → List α → Captures α → Prop
  | empty : Matches .empty [] []
  | one {p : α → Bool} {c : α} (h : p c = true) : Matches (.one p) [c] []
  | seq {a b : Regex α} {s t : List α} {cs ds : Captures α} (ha : Matches a s cs)
      (hb : Matches b t ds) : Matches (.seq a b) (s ++ t) (cs ++ ds)
  | starNil {a : Regex α} : Matches (.star a) [] []
  | starCons {a : Regex α} {s t : List α} {cs ds : Captures α} (ha : Matches a s cs)
      (hs : s ≠ []) (hrest : Matches (.star a) t ds) : Matches (.star a) (s ++ t) (cs ++ ds)
  | group {k : Nat} {a : Regex α} {s : List α} {cs : Captures α} (ha : Matches a s cs) :
      Matches (.group k a) s (cs ++ [(k, s)])

theorem mem_behind {m : Run α} {rs : List (Run α)} {cs : Captures α} {rest : List α} :
    (cs, rest) ∈ rs.map (Run.behind m) ↔ ∃ ds, (ds, rest) ∈ rs ∧ cs = m.1 ++ ds := by
  rw [List.mem_map]
  constructor
  · rintro ⟨⟨ds, rest'⟩, hr, heq⟩
    obtain ⟨rfl, rfl⟩ := Prod.mk.inj heq
    exact ⟨ds, hr, rfl⟩
  · rintro ⟨ds, hr, rfl⟩
    exact ⟨(ds, rest), hr, rfl⟩

/-- To repeat no further is to match the empty text. -/
theorem exists_of_stop {a : Regex α} {s rest : List α} {cs : Captures α}
    (h : (cs, rest) = ([], s)) : ∃ t, s = t ++ rest ∧ Matches (.star a) t cs := by
  obtain ⟨rfl, rfl⟩ := Prod.mk.inj h
  exact ⟨[], rfl, .starNil⟩

theorem mem_starRuns {a : Regex α}
    (ha : ∀ s cs rest, (cs, rest) ∈ runs a s ↔ ∃ t, s = t ++ rest ∧ Matches a t cs) {n : Nat}
    {s : List α} (hn : s.length ≤ n) {cs : Captures α} {rest : List α} :
    (cs, rest) ∈ starRuns (runs a) n s ↔ ∃ t, s = t ++ rest ∧ Matches (.star a) t cs := by
  -- a repetition takes something off the text, so `n` of them are enough
  induction n generalizing s cs rest with
  | zero =>
    obtain rfl := List.length_eq_zero_iff.mp (Nat.le_zero.mp hn)
    rw [starRuns, List.mem_singleton]
    refine ⟨exists_of_stop, ?_⟩
    rintro ⟨t, hs, ht⟩
    obtain ⟨ht', rfl⟩ := List.append_eq_nil_iff.mp hs.symm
    cases ht with
    | starNil => rfl
    | starCons _ hne _ => exact absurd (List.append_eq_nil_iff.mp ht').1 hne
  | succ n ih =>
    rw [starRuns, List.mem_append, List.mem_singleton, List.mem_flatMap]
    constructor
    · rintro (⟨m, hm, hr⟩ | heq)
      · obtain ⟨hm, hlt⟩ := List.mem_filter.mp hm
        have hlt := of_decide_eq_true hlt
        obtain ⟨u, hu, hmatch⟩ := (ha s m.1 m.2).mp hm
        obtain ⟨ds, hds, rfl⟩ := mem_behind.mp hr
        obtain ⟨t, ht, hstar⟩ := (ih (by omega)).mp hds
        refine ⟨u ++ t, by rw [hu, ht, List.append_assoc], .starCons hmatch ?_ hstar⟩
        rintro rfl
        rw [hu, List.nil_append] at hlt
        omega
      · exact exists_of_stop heq
    · rintro ⟨t, rfl, ht⟩
      cases ht with
      | starNil => exact Or.inr rfl
      | @starCons _ u v ds es hmatch hne hstar =>
        refine Or.inl ⟨(ds, v ++ rest), List.mem_filter.mpr ⟨?_, ?_⟩, mem_behind.mpr ⟨es, ?_, rfl⟩⟩
        · exact (ha _ _ _).mpr ⟨u, List.append_assoc .., hmatch⟩
        · have := List.length_pos_iff.mpr hne
          simp only [List.length_append, decide_eq_true_eq]
          omega
        · have := List.length_pos_iff.mpr hne
          refine (ih ?_).mpr ⟨v, rfl, hstar⟩
          simp only [List.length_append] at hn ⊢
          omega

/-- The engine finds what the pattern matches. -/
theorem mem_runs {a : Regex α} {s : List α} {cs : Captures α} {rest : List α} :
    (cs, rest) ∈ runs a s ↔ ∃ t, s = t ++ rest ∧ Matches a t cs := by
  induction a generalizing s cs rest with
  | empty =>
    rw [runs, List.mem_singleton]
    constructor
    · intro heq
      obtain ⟨rfl, rfl⟩ := Prod.mk.inj heq
      exact ⟨[], rfl, .empty⟩
    · rintro ⟨t, rfl, ht⟩
      cases ht
      rfl
  | one p =>
    unfold runs
    constructor
    · intro h
      split at h
      · cases h
      · next c s =>
        split at h
        · next hp =>
          obtain ⟨rfl, rfl⟩ := Prod.mk.inj (List.mem_singleton.mp h)
          exact ⟨[c], rfl, .one hp⟩
        · cases h
    · rintro ⟨t, rfl, ht⟩
      cases ht with
      | one hp =>
        dsimp only [List.singleton_append]
        rw [if_pos hp]
        exact List.mem_singleton_self _
  | seq a b iha ihb =>
    rw [runs, List.mem_flatMap]
    constructor
    · rintro ⟨m, hm, hr⟩
      obtain ⟨t, rfl, ha⟩ := iha.mp hm
      obtain ⟨ds, hds, rfl⟩ := mem_behind.mp hr
      obtain ⟨u, hu, hb⟩ := ihb.mp hds
      exact ⟨t ++ u, by rw [hu, List.append_assoc], .seq ha hb⟩
    · rintro ⟨t, rfl, ht⟩
      cases ht with
      | @seq _ _ t u ds es ha hb =>
        refine ⟨(ds, u ++ rest), iha.mpr ⟨t, List.append_assoc .., ha⟩, mem_behind.mpr ⟨es, ?_, rfl⟩⟩
        exact ihb.mpr ⟨u, rfl, hb⟩
  | star a iha => exact mem_starRuns (fun _ _ _ => iha) (Nat.le_refl _)
  | group k a iha =>
    rw [runs, List.mem_map]
    constructor
    · rintro ⟨m, hm, heq⟩
      obtain ⟨rfl, rfl⟩ := Prod.mk.inj heq
      obtain ⟨t, rfl, ha⟩ := iha.mp hm
      refine ⟨t, rfl, ?_⟩
      rw [List.length_append, Nat.add_sub_cancel, List.take_left]
      exact .group ha
    · rintro ⟨t, rfl, ht⟩
      cases ht with
      | @group _ _ _ ds ha =>
        refine ⟨(ds, rest), iha.mpr ⟨t, rfl, ha⟩, ?_⟩
        dsimp only
        rw [List.length_append, Nat.add_sub_cancel, List.take_left]

theorem matches_of_fullMatch {a : Regex α} {s : List α} {cs : Captures α}
    (h : fullMatch a s = some cs) : Matches a s cs := by
  obtain ⟨m, hm, rfl⟩ := Option.map_eq_some_iff.mp h
  have hrest := List.isEmpty_iff.mp (List.find?_some (p := fun r : Run α => r.2.isEmpty) hm)
  obtain ⟨t, rfl, hmatch⟩ := mem_runs.mp (List.mem_of_find?_eq_some hm)
  rwa [hrest, List.append_nil]

/-- A full match succeeds on the language of the pattern. -/
theorem fullMatch_isSome {a : Regex α} {s : List α} :
    (fullMatch a s).isSome = true ↔ ∃ cs, Matches a s cs := by
  constructor
  · intro h
    obtain ⟨cs, hcs⟩ := Option.isSome_iff_exists.mp h
    exact ⟨cs, matches_of_fullMatch hcs⟩
  · rintro ⟨cs, hmatch⟩
    have hmem : (cs, []) ∈ runs a s := mem_runs.mpr ⟨s, (List.append_nil s).symm, hmatch⟩
    rw [fullMatch, Option.isSome_map, List.find?_isSome]
    exact ⟨(cs, []), hmem, rfl⟩

/-- Where a text can be taken apart in one way, that is the match. -/
theorem fullMatch_eq_some {a : Regex α} {s : List α} {cs : Captures α}
    (honly : ∀ ds, Matches a s ds → ds = cs) : fullMatch a s = some cs ↔ Matches a s cs := by
  refine ⟨matches_of_fullMatch, fun hmatch => ?_⟩
  obtain ⟨ds, hds⟩ := Option.isSome_iff_exists.mp (fullMatch_isSome.mpr ⟨cs, hmatch⟩)
  rw [hds, honly ds (matches_of_fullMatch hds)]

/-! ## What the constructs match -/

theorem matches_empty {t : List α} {cs : Captures α} :
    Matches .empty t cs ↔ t = [] ∧ cs = [] := by
  constructor
  · intro h
    cases h
    exact ⟨rfl, rfl⟩
  · rintro ⟨rfl, rfl⟩
    exact .empty

theorem matches_one {p : α → Bool} {t : List α} {cs : Captures α} :
    Matches (.one p) t cs ↔ ∃ c, t = [c] ∧ p c = true ∧ cs = [] := by
  constructor
  · intro h
    cases h with
    | one hp => exact ⟨_, rfl, hp, rfl⟩
  · rintro ⟨c, rfl, hp, rfl⟩
    exact .one hp

theorem matches_seq {a b : Regex α} {t : List α} {cs : Captures α} :
    Matches (.seq a b) t cs ↔
      ∃ u v ds es, t = u ++ v ∧ cs = ds ++ es ∧ Matches a u ds ∧ Matches b v es := by
  constructor
  · intro h
    cases h with
    | seq ha hb => exact ⟨_, _, _, _, rfl, rfl, ha, hb⟩
  · rintro ⟨u, v, ds, es, rfl, rfl, ha, hb⟩
    exact .seq ha hb

theorem matches_group {k : Nat} {a : Regex α} {t : List α} {cs : Captures α} :
    Matches (.group k a) t cs ↔ ∃ ds, cs = ds ++ [(k, t)] ∧ Matches a t ds := by
  constructor
  · intro h
    cases h with
    | group ha => exact ⟨_, rfl, ha⟩
  · rintro ⟨ds, rfl, ha⟩
    exact .group ha

/-- The text itself. -/
def literal [BEq α] : List α → Regex α
  | [] => .empty
  | c :: w => .seq (.one (· == c)) (literal w)

/-- The pattern `n` times. -/
def times (a : Regex α) : Nat → Regex α
  | 0 => .empty
  | n + 1 => .seq a (times a n)

/-- The pattern at least once. -/
def plus (a : Regex α) : Regex α := .seq a (.star a)

theorem matches_literal [BEq α] [LawfulBEq α] {w t : List α} {cs : Captures α} :
    Matches (literal w) t cs ↔ t = w ∧ cs = [] := by
  induction w generalizing t cs with
  | nil => exact matches_empty
  | cons c w ih =>
    rw [literal, matches_seq]
    constructor
    · rintro ⟨u, v, ds, es, rfl, rfl, hc, hw⟩
      obtain ⟨d, rfl, hd, rfl⟩ := matches_one.mp hc
      obtain ⟨rfl, rfl⟩ := ih.mp hw
      rw [eq_of_beq hd]
      exact ⟨rfl, rfl⟩
    · rintro ⟨rfl, rfl⟩
      exact ⟨[c], w, [], [], rfl, rfl, .one (beq_self_eq_true c), ih.mpr ⟨rfl, rfl⟩⟩

theorem matches_times_one {p : α → Bool} {n : Nat} {t : List α} {cs : Captures α} :
    Matches (times (.one p) n) t cs ↔ (t.length = n ∧ t.all p = true) ∧ cs = [] := by
  induction n generalizing t cs with
  | zero =>
    rw [times, matches_empty, List.length_eq_zero_iff]
    constructor
    · rintro ⟨rfl, rfl⟩
      exact ⟨⟨rfl, rfl⟩, rfl⟩
    · rintro ⟨⟨rfl, -⟩, rfl⟩
      exact ⟨rfl, rfl⟩
  | succ n ih =>
    rw [times, matches_seq]
    constructor
    · rintro ⟨u, v, ds, es, rfl, rfl, hc, hrest⟩
      obtain ⟨c, rfl, hp, rfl⟩ := matches_one.mp hc
      obtain ⟨⟨hlen, hall⟩, rfl⟩ := ih.mp hrest
      refine ⟨⟨?_, ?_⟩, rfl⟩
      · rw [List.singleton_append, List.length_cons, hlen]
      · rw [List.singleton_append, List.all_cons, hp, hall]
        rfl
    · rintro ⟨⟨hlen, hall⟩, rfl⟩
      cases t with
      | nil => cases hlen
      | cons c t =>
        rw [List.all_cons, Bool.and_eq_true] at hall
        exact ⟨[c], t, [], [], rfl, rfl, .one hall.1, ih.mpr ⟨⟨Nat.succ.inj hlen, hall.2⟩, rfl⟩⟩

/-- A repetition matches what its body matches, one after the other. -/
theorem matches_star {a : Regex α} {t : List α} {cs : Captures α} :
    Matches (.star a) t cs ↔ ∃ ms : List (List α × Captures α),
      (∀ m ∈ ms, m.1 ≠ [] ∧ Matches a m.1 m.2) ∧ t = ms.flatMap (·.1) ∧ cs = ms.flatMap (·.2) := by
  constructor
  · intro h
    generalize hr : Regex.star a = r at h
    induction h with
    | starNil => exact ⟨[], fun m hm => absurd hm List.not_mem_nil, rfl, rfl⟩
    | @starCons a' s t ds es ha hs _ _ ih =>
      obtain rfl := Regex.star.inj hr
      obtain ⟨ms, hms, rfl, rfl⟩ := ih rfl
      exact ⟨(s, ds) :: ms, List.forall_mem_cons.mpr ⟨⟨hs, ha⟩, hms⟩, rfl, rfl⟩
    | empty => cases hr
    | one => cases hr
    | seq => cases hr
    | group => cases hr
  · rintro ⟨ms, hms, rfl, rfl⟩
    induction ms with
    | nil => exact .starNil
    | cons m ms ih =>
      obtain ⟨⟨hne, ha⟩, hms⟩ := List.forall_mem_cons.mp hms
      exact .starCons ha hne (ih hms)

theorem matches_star_one {p : α → Bool} {t : List α} {cs : Captures α} :
    Matches (.star (.one p)) t cs ↔ t.all p = true ∧ cs = [] := by
  constructor
  · rw [matches_star]
    rintro ⟨ms, hms, rfl, rfl⟩
    induction ms with
    | nil => exact ⟨rfl, rfl⟩
    | cons m ms ih =>
      obtain ⟨⟨-, ha⟩, hms⟩ := List.forall_mem_cons.mp hms
      obtain ⟨c, hc, hp, hnil⟩ := matches_one.mp ha
      obtain ⟨hall, hcs⟩ := ih hms
      rw [List.flatMap_cons, List.flatMap_cons, hc, hnil, hcs, List.singleton_append, List.all_cons,
        hp, hall]
      exact ⟨rfl, rfl⟩
  · rintro ⟨hall, rfl⟩
    induction t with
    | nil => exact .starNil
    | cons c t ih =>
      rw [List.all_cons, Bool.and_eq_true] at hall
      exact .starCons (.one hall.1) (List.cons_ne_nil c []) (ih hall.2)

theorem matches_plus_one {p : α → Bool} {t : List α} {cs : Captures α} :
    Matches (plus (.one p)) t cs ↔ (t ≠ [] ∧ t.all p = true) ∧ cs = [] := by
  rw [plus, matches_seq]
  constructor
  · rintro ⟨u, v, ds, es, rfl, rfl, hc, hrest⟩
    obtain ⟨c, rfl, hp, rfl⟩ := matches_one.mp hc
    obtain ⟨hall, rfl⟩ := matches_star_one.mp hrest
    refine ⟨⟨List.cons_ne_nil c v, ?_⟩, rfl⟩
    rw [List.singleton_append, List.all_cons, hp, hall]
    rfl
  · rintro ⟨⟨hne, hall⟩, rfl⟩
    obtain ⟨c, t, rfl⟩ := List.exists_cons_of_ne_nil hne
    rw [List.all_cons, Bool.and_eq_true] at hall
    exact ⟨[c], t, [], [], rfl, rfl, .one hall.1, matches_star_one.mpr ⟨hall.2, rfl⟩⟩

/-! ## Templates -/

/-- A fixed text with slots in it: each slot behind its lead, as a group, and the rest. -/
def template [BEq α] (last : List α) : Nat → List (List α × Regex α) → Regex α
  | _, [] => literal last
  | k, (lead, body) :: slots =>
    .seq (literal lead) (.seq (.group k body) (template last (k + 1) slots))

/-- The text with the slots filled. -/
def fill (last : List α) : List (List α × Regex α) → List (List α) → List α
  | (lead, _) :: slots, v :: vs => lead ++ (v ++ fill last slots vs)
  | _, _ => last

/-- The groups of a template, numbered from `k`. -/
def numbered : Nat → List (List α) → Captures α
  | _, [] => []
  | k, v :: vs => (k, v) :: numbered (k + 1) vs

/-- The texts fit the slots. -/
def Fits (slots : List (List α × Regex α)) (vs : List (List α)) : Prop :=
  List.Forall₂ (fun slot v => Matches slot.2 v []) slots vs

/-- No group in the pattern. -/
def Silent (a : Regex α) : Prop := ∀ t cs, Matches a t cs → cs = []

theorem matches_template [BEq α] [LawfulBEq α] {last : List α} {slots : List (List α × Regex α)}
    (hsilent : ∀ slot ∈ slots, Silent slot.2) {k : Nat} {s : List α} {cs : Captures α} :
    Matches (template last k slots) s cs ↔
      ∃ vs, Fits slots vs ∧ s = fill last slots vs ∧ cs = numbered k vs := by
  induction slots generalizing k s cs with
  | nil =>
    rw [template, matches_literal]
    constructor
    · rintro ⟨rfl, rfl⟩
      exact ⟨[], .nil, rfl, rfl⟩
    · rintro ⟨vs, hfits, rfl, rfl⟩
      cases hfits
      exact ⟨rfl, rfl⟩
  | cons slot slots ih =>
    obtain ⟨lead, body⟩ := slot
    obtain ⟨hbody, hslots⟩ := List.forall_mem_cons.mp hsilent
    rw [template, matches_seq]
    constructor
    · rintro ⟨_, _, _, _, rfl, rfl, hlead, hrest⟩
      obtain ⟨rfl, rfl⟩ := matches_literal.mp hlead
      obtain ⟨v, _, _, _, rfl, rfl, hgroup, htail⟩ := matches_seq.mp hrest
      obtain ⟨ds, rfl, hv⟩ := matches_group.mp hgroup
      obtain ⟨vs, hfits, rfl, rfl⟩ := (ih hslots).mp htail
      obtain rfl := hbody v ds hv
      exact ⟨v :: vs, .cons hv hfits, rfl, rfl⟩
    · rintro ⟨vs, hfits, rfl, rfl⟩
      cases hfits with
      | @cons _ v _ vs hv hfits =>
        exact ⟨lead, v ++ fill last slots vs, [], numbered k (v :: vs), rfl, rfl,
          matches_literal.mpr ⟨rfl, rfl⟩, matches_seq.mpr ⟨v, _, [(k, v)], _, rfl, rfl,
            matches_group.mpr ⟨[], rfl, hv⟩, (ih hslots).mpr ⟨vs, hfits, rfl, rfl⟩⟩⟩

/-- Where a text that the pattern matches ends is seen from what follows it. -/
def Delimited (body : Regex α) (next : List α) : Prop :=
  ∀ v w r s, Matches body v [] → Matches body w [] → v ++ (next ++ r) = w ++ (next ++ s) → v = w

/-- Of one length, texts end at one place. -/
theorem delimited_of_length {body : Regex α} {n : Nat}
    (h : ∀ v, Matches body v [] → v.length = n) (next : List α) : Delimited body next := by
  intro v w r s hv hw heq
  exact (List.append_inj heq ((h v hv).trans (h w hw).symm)).1

/-- A character that follows the texts and is in none of them marks their end. -/
theorem delimited_of_notMem {body : Regex α} {c : α} {before after : List α} (hbefore : c ∉ before)
    (h : ∀ v, Matches body v [] → c ∉ v) : Delimited body (before ++ c :: after) := by
  intro v w r s hv hw heq
  have hfree {t : List α} (ht : Matches body t []) : c ∉ t ++ before := by
    rw [List.mem_append]
    exact fun hmem => hmem.elim (h t ht) hbefore
  have hcut : (v ++ before) ++ c :: (after ++ r) = (w ++ before) ++ c :: (after ++ s) := by
    simpa only [List.append_assoc, List.cons_append] using heq
  -- were one longer than the other, the mark would be in it
  rcases List.append_eq_append_iff.mp hcut with ⟨t, ht, hc⟩ | ⟨t, ht, hc⟩
  · cases t with
    | nil => exact List.append_cancel_right (ht.trans (List.append_nil _)).symm
    | cons d t =>
      obtain ⟨rfl, -⟩ := List.cons.inj hc
      exact absurd (ht ▸ List.mem_append_right _ List.mem_cons_self) (hfree hw)
  · cases t with
    | nil => exact List.append_cancel_right (ht.trans (List.append_nil _))
    | cons d t =>
      obtain ⟨rfl, -⟩ := List.cons.inj hc
      exact absurd (ht ▸ List.mem_append_right _ List.mem_cons_self) (hfree hv)

/-- Every slot is delimited by the fixed text behind it. -/
def Unambiguous (last : List α) : List (List α × Regex α) → Prop
  | [] => True
  | [(_, body)] => Delimited body last
  | (_, body) :: (next, body') :: slots =>
    Delimited body next ∧ Unambiguous last ((next, body') :: slots)

/-- A template without ambiguity is filled in one way. -/
theorem fill_injective {last : List α} {slots : List (List α × Regex α)}
    (h : Unambiguous last slots) {vs ws : List (List α)} (hv : Fits slots vs) (hw : Fits slots ws)
    (heq : fill last slots vs = fill last slots ws) : vs = ws := by
  induction slots generalizing vs ws with
  | nil =>
    cases hv
    cases hw
    rfl
  | cons slot slots ih =>
    cases hv with
    | @cons _ v _ vs hv hvs =>
      cases hw with
      | @cons _ w _ ws hw hws =>
        have htail : v ++ fill last slots vs = w ++ fill last slots ws :=
          List.append_cancel_left heq
        cases slots with
        | nil =>
          cases hvs
          cases hws
          have hlast : v ++ (last ++ []) = w ++ (last ++ []) := by
            rw [List.append_nil]
            exact htail
          rw [h v w [] [] hv hw hlast]
        | cons next slots =>
          obtain ⟨hdelimited, hrest⟩ := h
          cases hvs with
          | @cons _ v' _ vs' hv' hvs' =>
            cases hws with
            | @cons _ w' _ ws' hw' hws' =>
              obtain rfl := hdelimited v w _ _ hv hw htail
              rw [ih hrest (.cons hv' hvs') (.cons hw' hws') (List.append_cancel_left htail)]

end Preaction.Pattern
