import Mathlib.Data.List.Infix
import Preaction.Ledger.Entry
import Preaction.Lib.Chain
import Preaction.Lib.Loop

/-!
# `session_chain_check.py` — a hash-chained session history

`check` decides a log against the heads that others hold of it. The log by
itself is consistent or FAIL; a consistent log is FAIL when a head contradicts
it, PASS when a head can be compared with it, and CANNOT_ESTABLISH otherwise.

Two results. A head determines the log below it, whatever the length and the
start of the logs that contain it (`records_eq_below`). PASS says that every
head is matched as long as none lies more than one entry before the log
(`heads_matched_iff`): the branch for such a head only leaves a note, where
the docstring of the source promises that every supplied head is matched.

Mirroring notes:
- `why` accumulates; here each entry and each head gives its own reasons, in
  the order in which they are appended.
- `"truncated" in w or "equivocation" in w` is read off the texts, as in the
  source.
- `seg_prev[:8]` raises where `prev_head_hash` is neither a text nor a list.
-/

namespace Preaction.Ledger.Session

open Preaction.Py Preaction.Chain Preaction.Loop

variable (R : Runtime)

/-- `PASS`, `FAIL` and `CANNOT`. -/
inductive Result
  | pass
  | fail
  | cannotEstablish
  deriving DecidableEq, Repr

/-- A head of the log that someone other than its writer holds. -/
structure ExternalHead where
  entry : Int
  headHash : Json
  deriving DecidableEq

/-- The reasons that the entry at position `i` gives. -/
def entryReasons (i : Nat) (before : Option Entry) (prev : Json) (e : Entry) :
    Except PyError (List Str) := do
  let c := e.chain
  let numbers := match before with
    | some b => if e.entry = b.entry + 1 then [] else
      [lit "entry numbers not consecutive at position " ++ decimal i ++ lit ": " ++
        intStr b.entry ++ lit " -> " ++ intStr e.entry]
    | none => []
  let named := lit "entry " ++ intStr e.entry
  let content := if c.contentHash.pyEq (.str (← contentHash R e.record)) then [] else
    [named ++ lit ": content_hash does not recompute (record altered)"]
  let link := if c.prevHeadHash.pyEq prev then [] else
    [named ++ lit ": prev_head_hash does not link to the previous head (splice or reorder)"]
  let head := if c.headHash.pyEq (.str (← headHash R c.contentHash c.prevHeadHash)) then [] else
    [named ++ lit ": head_hash does not recompute"]
  return numbers ++ content ++ link ++ head

/-- The loop over the entries. -/
def entriesReasons : Nat → Option Entry → Json → List Entry → Except PyError (List Str)
  | _, _, _, [] => .ok []
  | i, before, prev, e :: es => do
    let why ← entryReasons R i before prev e
    return why ++ (← entriesReasons (i + 1) (some e) e.chain.headHash es)

/-- `by_entry`; a later entry of one number replaces an earlier one. -/
def byEntry (entries : List Entry) (n : Int) : Option Json :=
  (entries.reverse.find? (·.entry = n)).map (·.chain.headHash)

/-- What the body of the loop over the heads does with one: whether it sets
`lower_anchored`, and the reasons it appends. -/
def compareHead (entries : List Entry) (first last : Int) (segPrev : Json) (h : ExternalHead) :
    Bool × List Str :=
  let n := h.entry
  let named := lit "external head for entry " ++ intStr n
  if n > last then
    (false, [named ++ lit " exists but the log ends at " ++ intStr last ++ lit " (truncated)"])
  else if (byEntry entries n).any fun head => !head.pyEq h.headHash then
    (false, [named ++ lit " differs from the log's head (equivocation)"])
  else if n = first - 1 then
    if h.headHash.pyEq segPrev then (true, [])
    else (false, [named ++ lit " differs from entry " ++ intStr first ++
      lit "'s prev_head_hash (segment does not attach: equivocation)"])
  else if (byEntry entries n).isNone then
    (false, [named ++ lit " precedes this log segment by more than one entry (cannot compare)"])
  else (false, [])

/-- `"truncated" in w or "equivocation" in w` -/
def contradicts (w : Str) : Bool :=
  decide (lit "truncated" <:+: w) || decide (lit "equivocation" <:+: w)

/-- `seg_prev[:8]`, as an f-string shows it. -/
def firstEight : Json → Except PyError Str
  | .str s => .ok (s.take 8)
  | .arr xs => .ok (R.strOf (.arr (xs.take 8)))
  | _ => .error .typeError

/-- The lower bound of what PASS establishes. -/
def lowerBound (lowerAnchored : Bool) (first : Int) (segPrev : Json) : Except PyError Str := do
  if lowerAnchored then
    return lit "from entry " ++ intStr first ++
      lit " (its prev_head_hash matches the external head for " ++ intStr (first - 1) ++
      lit ", so the segment attaches to that history)"
  return lit "from entry " ++ intStr first ++ lit " (its prev_head_hash " ++
    (← firstEight R segPrev) ++ lit "... is taken as given; nothing before " ++ intStr first ++
    lit " is established)"

/-- `check(entries, external_heads)` -/
def check (entries : List Entry) (externalHeads : List ExternalHead) :
    Except PyError (Result × List Str) := do
  match entries with
  | [] => return (.cannotEstablish, [lit "empty log"])
  | e :: es =>
    let segPrev := e.chain.prevHeadHash
    let why ← entriesReasons R 0 none segPrev entries
    if !why.isEmpty then return (.fail, why)
    let first := e.entry
    let last := (es.getLastD e).entry
    let compared := externalHeads.map (compareHead entries first last segPrev)
    let lowerAnchored := compared.any (·.1)
    let why := compared.flatMap (·.2)
    if why.any contradicts then return (.fail, why)
    let comparable := externalHeads.filter fun h => (byEntry entries h.entry).isSome
    match comparable with
    | [] => return (.cannotEstablish, why ++
        [lit "internally consistent, but no comparable external head: removal of the tail is undetectable"])
    | h :: hs =>
      let newest := hs.foldl (fun n h => max n h.entry) h.entry
      let lower ← lowerBound R lowerAnchored first segPrev
      return (.pass, why ++ [lit "consistent, and complete " ++ lower ++ lit " up to entry " ++
        intStr newest ++
        lit " (the newest external head supplied); nothing is established beyond it"])

/-! ## A consistent log -/

variable {R}

/-- An entry gives no reason when it follows the one before it in number and in
head, and its hashes recompute. -/
theorem entryReasons_nil {i : Nat} {before : Option Entry} {prev : Json} {e : Entry} :
    entryReasons R i before prev e = .ok [] ↔
      (∀ b ∈ before, e.entry = b.entry + 1) ∧ e.chain.prevHeadHash.pyEq prev = true ∧
        Recomputes R e := by
  constructor
  · intro h
    obtain ⟨c, hc, h⟩ := bind_ok.mp h
    obtain ⟨d, hd, h⟩ := bind_ok.mp h
    have h := Except.ok.inj h
    simp only [List.append_eq_nil_iff, ite_eq_left_iff, List.cons_ne_nil, imp_false,
      not_not] at h
    obtain ⟨⟨⟨hnum, hcontent⟩, hlink⟩, hhead⟩ := h
    refine ⟨?_, hlink, ⟨⟨c, hc, (Json.pyEq_str _ _).mp hcontent⟩,
      ⟨d, hd, (Json.pyEq_str _ _).mp hhead⟩⟩⟩
    intro b hb
    rw [Option.mem_def.mp hb] at hnum
    dsimp only at hnum
    by_contra hne
    rw [if_neg hne] at hnum
    cases hnum
  · rintro ⟨hnum, hlink, ⟨c, hc, hc'⟩, ⟨d, hd, hd'⟩⟩
    refine bind_ok.mpr ⟨c, hc, bind_ok.mpr ⟨d, hd, congrArg Except.ok ?_⟩⟩
    simp only [List.append_eq_nil_iff]
    refine ⟨⟨⟨?_, ?_⟩, if_pos hlink⟩, if_pos ((Json.pyEq_str _ _).mpr hd')⟩
    · cases before with
      | none => rfl
      | some b => exact if_pos (hnum b rfl)
    · exact if_pos ((Json.pyEq_str _ _).mpr hc')

/-- The text of the head that an entry names. -/
def prevText (R : Runtime) (e : Entry) : Str := R.str e.chain.prevHeadHash

/-- The text of the head of an entry. -/
def linkText (R : Runtime) (e : Entry) : Str := R.str e.chain.headHash

/-- What the loop establishes about a log: both hashes of every entry recompute,
the heads are linked and the numbers are consecutive. -/
structure Consistent (R : Runtime) (root : Str) (n : Int) (es : List Entry) : Prop where
  recomputes : ∀ e ∈ es, Recomputes R e
  linked : Linked (prevText R) (linkText R) root es
  numbered : Linked (fun e : Entry => e.entry) (fun e => e.entry + 1) n es

theorem Consistent.cons {root : Str} {n : Int} {e : Entry} {es : List Entry}
    (hrec : Recomputes R e) (hroot : prevText R e = root) (hn : e.entry = n)
    (h : Consistent R (linkText R e) (e.entry + 1) es) : Consistent R root n (e :: es) :=
  ⟨List.forall_mem_cons.mpr ⟨hrec, h.recomputes⟩, ⟨hroot, h.linked⟩, ⟨hn, h.numbered⟩⟩

/-- A step of the loop. -/
theorem entriesReasons_cons {i : Nat} {before : Option Entry} {prev : Json} {e : Entry}
    {es : List Entry} : entriesReasons R i before prev (e :: es) = .ok [] ↔
      entryReasons R i before prev e = .ok [] ∧
        entriesReasons R (i + 1) (some e) e.chain.headHash es = .ok [] := by
  constructor
  · intro h
    obtain ⟨why, hwhy, h⟩ := bind_ok.mp h
    obtain ⟨rest, hrest, h⟩ := bind_ok.mp h
    obtain ⟨rfl, rfl⟩ := List.append_eq_nil_iff.mp (Except.ok.inj h)
    exact ⟨hwhy, hrest⟩
  · rintro ⟨hwhy, hrest⟩
    exact bind_ok.mpr ⟨_, hwhy, bind_ok.mpr ⟨_, hrest, rfl⟩⟩

/-- The loop after an entry that recomputes. -/
theorem consistent_of_entriesReasons {i : Nat} {b : Entry} {es : List Entry}
    (hb : Recomputes R b)
    (h : entriesReasons R i (some b) b.chain.headHash es = .ok []) :
    Consistent R (linkText R b) (b.entry + 1) es := by
  induction es generalizing i b with
  | nil => exact ⟨nofun, trivial, trivial⟩
  | cons e es ih =>
    obtain ⟨hwhy, hrest⟩ := entriesReasons_cons.mp h
    obtain ⟨hnum, hlink, hrec⟩ := entryReasons_nil.mp hwhy
    obtain ⟨t, -, ht⟩ := hb.head
    have hprev : e.chain.prevHeadHash = b.chain.headHash := by
      rw [ht] at hlink ⊢
      exact (Json.pyEq_str _ _).mp hlink
    refine .cons hrec ?_ (hnum b rfl) (ih hrec hrest)
    rw [prevText, linkText, hprev]

/-- A log that is not FAIL is consistent. -/
theorem consistent_of_check {entries : List Entry} {heads : List ExternalHead} {r : Result}
    {why : List Str} (h : check R entries heads = .ok (r, why)) (hr : r ≠ .fail) :
    ∃ root n, Consistent R root n entries := by
  cases entries with
  | nil => exact ⟨[], 0, nofun, trivial, trivial⟩
  | cons e es =>
    obtain ⟨reasons, hreasons, h⟩ := bind_ok.mp h
    cases reasons with
    | cons w ws =>
      obtain ⟨rfl, -⟩ := Prod.mk.inj (Except.ok.inj h)
      exact absurd rfl hr
    | nil =>
      obtain ⟨hwhy, hrest⟩ := entriesReasons_cons.mp hreasons
      obtain ⟨-, -, hrec⟩ := entryReasons_nil.mp hwhy
      exact ⟨_, _, .cons hrec rfl rfl (consistent_of_entriesReasons hrec hrest)⟩

/-- The numbers of a consistent log count up from its first. -/
theorem Consistent.entry_getElem {root : Str} {n : Int} {es : List Entry}
    (h : Consistent R root n es) {i : Nat} (hi : i < es.length) : es[i].entry = n + i := by
  induction i with
  | zero =>
    rw [h.numbered.prev_getElem_zero hi]
    omega
  | succ i ih =>
    have := h.numbered.prev_getElem_succ hi
    rw [this, ih (by omega)]
    omega

/-- Equal heads of entries that recompute come from one record and one head before. -/
theorem eq_of_linkText_eq (hsha : Function.Injective R.sha256) (hf : R.dumpsFormat.Lawful)
    {a b : Entry} (ha : Recomputes R a) (hb : Recomputes R b)
    (h : linkText R a = linkText R b) :
    Json.SameValue a.record b.record ∧ prevText R a = prevText R b := by
  refine ha.eq_of_head_eq hsha hf hb ?_
  obtain ⟨s, -, hs⟩ := ha.head
  obtain ⟨t, -, ht⟩ := hb.head
  rw [linkText, linkText, hs, ht] at h
  rw [hs, ht]
  exact congrArg Json.str h

/-- A shared head excludes any fork behind it: two logs that are not FAIL and have
one head at one entry hold the same record at every entry up to it that is in
both. -/
theorem records_eq_below (hsha : Function.Injective R.sha256) (hf : R.dumpsFormat.Lawful)
    {xs ys : List Entry} {hs ks : List ExternalHead} {r q : Result} {why why' : List Str}
    (hx : check R xs hs = .ok (r, why)) (hr : r ≠ .fail) (hy : check R ys ks = .ok (q, why'))
    (hq : q ≠ .fail) {a b : Entry} (ha : a ∈ xs) (hb : b ∈ ys) (hn : a.entry = b.entry)
    (hhead : a.chain.headHash = b.chain.headHash) :
    ∀ c ∈ xs, ∀ d ∈ ys, c.entry = d.entry → c.entry ≤ a.entry →
      Json.SameValue c.record d.record := by
  obtain ⟨root, m, hcx⟩ := consistent_of_check hx hr
  obtain ⟨root', n, hcy⟩ := consistent_of_check hy hq
  intro c hc d hd hcd hle
  obtain ⟨i, hi, rfl⟩ := List.getElem_of_mem ha
  obtain ⟨j, hj, rfl⟩ := List.getElem_of_mem hb
  obtain ⟨k, hk, rfl⟩ := List.getElem_of_mem hc
  obtain ⟨l, hl, rfl⟩ := List.getElem_of_mem hd
  rw [hcx.entry_getElem, hcy.entry_getElem] at hn hcd
  rw [hcx.entry_getElem, hcx.entry_getElem] at hle
  -- the two entries lie equally far below the common head
  have hagree := hcx.linked.agree_below
    (fun a ha b hb => eq_of_linkText_eq hsha hf (hcx.recomputes a ha) (hcy.recomputes b hb))
    hcy.linked hi hj (congrArg R.str hhead) (k := i - k) (by omega) (by omega)
  simp only [show i - (i - k) = k by omega, show j - (i - k) = l by omega] at hagree
  exact hagree.1

/-- The sample ledger and the same ledger from its second entry on share the last
head, and so the record at entry 41. -/
theorem sampleLedger_records : ∃ c ∈ sampleLedger .transparent,
    ∃ d ∈ (sampleLedger .transparent).drop 1, c.entry = 41 ∧ d.entry = 41 ∧
      Json.SameValue c.record d.record := by
  obtain ⟨⟨r, why⟩, hrun, hr⟩ := map_ok.mp (show (check .transparent
    (sampleLedger .transparent) []).map (·.1) = .ok .cannotEstablish by decide +kernel)
  obtain ⟨⟨q, why'⟩, hrun', hq⟩ := map_ok.mp (show (check .transparent
    ((sampleLedger .transparent).drop 1) []).map (·.1) = .ok .cannotEstablish by decide +kernel)
  obtain rfl : r = .cannotEstablish := hr
  obtain rfl : q = .cannotEstablish := hq
  have hlast : (sampleLedger .transparent)[2]? = ((sampleLedger .transparent).drop 1)[1]? := by
    decide +kernel
  have hmid : (sampleLedger .transparent)[1]? = ((sampleLedger .transparent).drop 1)[0]? := by
    decide +kernel
  obtain ⟨e, he⟩ : ∃ e, (sampleLedger .transparent)[2]? = some e := ⟨_, rfl⟩
  obtain ⟨c, hc⟩ : ∃ c, (sampleLedger .transparent)[1]? = some c := ⟨_, rfl⟩
  have hn : e.entry = 42 := by
    have : (sampleLedger .transparent)[2]?.map (·.entry) = some 42 := by decide +kernel
    rw [he] at this
    exact Option.some.inj this
  have hm : c.entry = 41 := by
    have : (sampleLedger .transparent)[1]?.map (·.entry) = some 41 := by decide +kernel
    rw [hc] at this
    exact Option.some.inj this
  have hcl := List.mem_of_getElem? hc
  have hdl := List.mem_of_getElem? (hmid ▸ hc)
  have h := records_eq_below Runtime.transparent_injective (Runtime.floatToken_lawful false) hrun
    nofun hrun' nofun (List.mem_of_getElem? he) (List.mem_of_getElem? (hlast ▸ he)) rfl rfl
  exact ⟨c, hcl, c, hdl, hm, hm, h c hcl c hdl rfl (by omega)⟩

/-! ## What PASS says about the heads -/

/-- The log matches a head: at its entry, or as the head its first entry names. -/
def Matched (entries : List Entry) (h : ExternalHead) : Prop :=
  (∃ e ∈ entries, e.entry = h.entry ∧ e.chain.headHash.pyEq h.headHash = true) ∨
    ∃ e ∈ entries.head?, h.entry = e.entry - 1 ∧ h.headHash.pyEq e.chain.prevHeadHash = true

instance (entries : List Entry) (h : ExternalHead) : Decidable (Matched entries h) :=
  inferInstanceAs (Decidable (_ ∨ _))

theorem contradicts_append {s t : Str} (h : contradicts t = true) :
    contradicts (s ++ t) = true := by
  simp only [contradicts, Bool.or_eq_true, decide_eq_true_eq] at h ⊢
  exact h.imp (fun h => h.trans (List.suffix_append s t).isInfix)
    fun h => h.trans (List.suffix_append s t).isInfix

/-- What `by_entry` holds comes from an entry of that number. -/
theorem mem_of_byEntry {entries : List Entry} {n : Int} {head : Json}
    (h : byEntry entries n = some head) :
    ∃ e ∈ entries, e.entry = n ∧ e.chain.headHash = head := by
  obtain ⟨e, he, rfl⟩ := Option.map_eq_some_iff.mp h
  have hn := List.find?_some he
  exact ⟨e, List.mem_reverse.mp (List.mem_of_find?_eq_some he), by simpa using hn, rfl⟩

/-- A head that leaves no contradicting reason is matched, or it lies before the
log and no entry has its number. -/
theorem compareHead_cases {entries : List Entry} {first last : Int} {segPrev : Json}
    {h : ExternalHead}
    (hc : ∀ w ∈ (compareHead entries first last segPrev h).2, contradicts w = false) :
    h.entry ≤ last ∧
      ((∃ e ∈ entries, e.entry = h.entry ∧ e.chain.headHash.pyEq h.headHash = true) ∨
        (h.entry = first - 1 ∧ h.headHash.pyEq segPrev = true) ∨
        byEntry entries h.entry = none ∧ h.entry ≠ first - 1) := by
  unfold compareHead at hc
  dsimp only at hc
  by_cases hlast : h.entry > last
  · rw [if_pos hlast] at hc
    have := hc _ (List.mem_singleton.mpr rfl)
    rw [contradicts_append (by decide)] at this
    cases this
  rw [if_neg hlast] at hc
  refine ⟨by omega, ?_⟩
  by_cases hdiff : ((byEntry entries h.entry).any fun head => !head.pyEq h.headHash) = true
  · rw [if_pos hdiff] at hc
    have := hc _ (List.mem_singleton.mpr rfl)
    rw [contradicts_append (by decide)] at this
    cases this
  rw [if_neg hdiff] at hc
  by_cases hfirst : h.entry = first - 1
  · rw [if_pos hfirst] at hc
    by_cases hseg : h.headHash.pyEq segPrev = true
    · exact Or.inr (Or.inl ⟨hfirst, hseg⟩)
    · rw [if_neg hseg] at hc
      have := hc _ (List.mem_singleton.mpr rfl)
      rw [contradicts_append (by decide)] at this
      cases this
  · cases hby : byEntry entries h.entry with
    | none => exact Or.inr (Or.inr ⟨rfl, hfirst⟩)
    | some head =>
      obtain ⟨e, he, hn, rfl⟩ := mem_of_byEntry hby
      refine Or.inl ⟨e, he, hn, ?_⟩
      rw [hby] at hdiff
      simpa using hdiff

/-- PASS: the log is consistent and no head leaves a contradicting reason. -/
theorem check_pass {entries : List Entry} {heads : List ExternalHead} {why : List Str}
    (h : check R entries heads = .ok (.pass, why)) : ∃ e es, entries = e :: es ∧
      ∀ x ∈ heads, ∀ w ∈ (compareHead entries e.entry (es.getLastD e).entry
        e.chain.prevHeadHash x).2, contradicts w = false := by
  cases entries with
  | nil => cases h
  | cons e es =>
    refine ⟨e, es, rfl, ?_⟩
    obtain ⟨reasons, -, h⟩ := bind_ok.mp h
    cases reasons with
    | cons w ws => cases h
    | nil =>
      rw [if_neg (by simp)] at h
      dsimp only at h
      split at h
      next => cases h
      next hany =>
        intro x hx w hw
        simp only [List.any_flatMap, List.any_map, List.any_eq_true, not_exists, not_and] at hany
        cases hcw : contradicts w with
        | false => rfl
        | true => exact absurd (List.any_eq_true.mpr ⟨w, hw, hcw⟩) (hany x hx)

/-- The number of the last entry. -/
theorem Consistent.entry_getLastD {root : Str} {n : Int} {e : Entry} {es : List Entry}
    (h : Consistent R root n (e :: es)) : (es.getLastD e).entry = n + es.length := by
  have hlast : (e :: es)[es.length] = es.getLastD e := by
    rcases List.eq_nil_or_concat es with rfl | ⟨es, b, rfl⟩
    · rfl
    · simp
  rw [← hlast]
  exact h.entry_getElem _

/-- On PASS every head is matched exactly when none lies more than one entry
before the log; such a head only leaves a note. -/
theorem heads_matched_iff {entries : List Entry} {heads : List ExternalHead} {why : List Str}
    (h : check R entries heads = .ok (.pass, why)) :
    (∀ x ∈ heads, Matched entries x) ↔
      ∀ x ∈ heads, ∀ e ∈ entries.head?, e.entry - 1 ≤ x.entry := by
  obtain ⟨root, n, hcons⟩ := consistent_of_check h nofun
  obtain ⟨e, es, rfl, hheads⟩ := check_pass h
  have hn : e.entry = n := hcons.numbered.1
  constructor
  · intro hm x hx a ha
    obtain rfl := Option.some.inj ha
    rcases hm x hx with ⟨b, hb, hbx, -⟩ | ⟨b, hb, hbx, -⟩
    · obtain ⟨i, hi, rfl⟩ := List.getElem_of_mem hb
      rw [hcons.entry_getElem] at hbx
      omega
    · obtain rfl := Option.some.inj hb
      omega
  · intro hlow x hx
    have hx' := hlow x hx e rfl
    obtain ⟨hlast, hmatch | ⟨hfirst, hseg⟩ | ⟨hnone, hne⟩⟩ := compareHead_cases (hheads x hx)
    · exact Or.inl hmatch
    · exact Or.inr ⟨e, rfl, hfirst, hseg⟩
    · -- a number between the first and the last is in the log
      rw [hcons.entry_getLastD] at hlast
      have hi : (x.entry - n).toNat < (e :: es).length := by
        rw [List.length_cons]
        omega
      have hentry := hcons.entry_getElem hi
      have hfind := List.find?_eq_none.mp (Option.map_eq_none_iff.mp hnone)
      have := hfind _ (List.mem_reverse.mpr (List.getElem_mem hi))
      rw [decide_eq_true_eq, hentry] at this
      omega

/-- Heads for the sample ledger: its last one, and one from long before it. -/
def sampleHeads : List ExternalHead :=
  [⟨42, (byEntry (sampleLedger .sample) 42).getD .null⟩, ⟨10, text "other"⟩]

/-- PASS with a head that nothing in the log matches. -/
theorem sampleLedger_unmatched :
    (check .sample (sampleLedger .sample) sampleHeads).map (·.1) = .ok .pass ∧
      ¬ ∀ x ∈ sampleHeads, Matched (sampleLedger .sample) x := by
  decide +kernel

/-- With the first head alone, PASS says that it is matched. -/
theorem sampleLedger_matched :
    Matched (sampleLedger .sample) ⟨42, (byEntry (sampleLedger .sample) 42).getD .null⟩ := by
  obtain ⟨⟨r, why⟩, hrun, hr⟩ := map_ok.mp (show (check .sample (sampleLedger .sample)
    (sampleHeads.take 1)).map (·.1) = .ok .pass by decide +kernel)
  obtain rfl : r = .pass := hr
  exact (heads_matched_iff hrun).mpr (by decide +kernel) _ (List.mem_cons_self ..)

end Preaction.Ledger.Session
