import Preaction.Lib.Positional
import Preaction.WorkAcceptance.TsaSig

/-!
# The two readings of an OBJECT IDENTIFIER

The content is a sequence of subidentifiers in base 128, the first of which holds
the first two numbers. `war_check._oid` reads the first one as it reads the others;
`tsa_sig.oid` takes its first byte for it. Both read the subidentifiers behind it
alike, so they agree exactly where the first one is a single byte.

What the content says is recovered from the text in three steps, each injective:
the bytes of a subidentifier from its value (`value_inj`), the values from the list
of numbers (`base128_flatten`), the numbers from the dotted text (`oidText_inj`).
-/

namespace Preaction.ObjectId

open Preaction.Py Preaction.Positional
open Preaction.WarCheck (base128 dotted oidText)
open Preaction.TsaSig (Elem)

/-- The high bit is set in every byte but the last one. -/
def isTerminated : Bytes → Bool
  | [] => false
  | [x] => x.toNat < 0x80
  | x :: y :: v => 0x80 ≤ x.toNat && isTerminated (y :: v)

/-- A subidentifier of the fewest bytes. -/
structure Subid (x : Bytes) : Prop where
  terminated : isTerminated x = true
  minimal : x.head? ≠ some 0x80

/-- One subidentifier after the other, at least one. -/
def WellFormed (v : Bytes) : Prop :=
  ∃ first rest, v = first ++ List.flatten rest ∧ Subid first ∧ ∀ x ∈ rest, Subid x

/-- The first subidentifier is one byte. -/
def ShortFirst (v : Bytes) : Prop := ∀ x ∈ v.head?, x.toNat < 0x80

/-! ## The subidentifiers -/

/-- The seven bits of each byte. -/
def low (x : Bytes) : List Nat := x.map (·.toNat % 128)

/-- The number of a subidentifier. -/
def value (x : Bytes) : Nat := horner 128 (low x)

theorem low_lt {x : Bytes} {d : Nat} (h : d ∈ low x) : d < 128 := by
  obtain ⟨y, -, rfl⟩ := List.mem_map.mp h
  exact Nat.mod_lt _ (by decide)

/-- The loop finishes one number at the end of a subidentifier. -/
theorem base128_append {x : Bytes} (h : isTerminated x = true) (n : Nat) (v : Bytes) :
    base128 n (x ++ v) = (low x).foldl (fun n d => n * 128 + d) n :: base128 0 v := by
  induction x using isTerminated.induct generalizing n with
  | case1 => simp [isTerminated] at h
  | case2 x =>
    have hx : x.toNat < 128 := by simpa [isTerminated] using h
    simp [base128, low, hx]
  | case3 x y w ih =>
    obtain ⟨hx, hw⟩ : 0x80 ≤ x.toNat ∧ isTerminated (y :: w) = true := by
      simpa [isTerminated] using h
    rw [List.cons_append, base128, if_neg (by omega), ih hw]
    rfl

theorem base128_flatten {xs : List Bytes} (h : ∀ x ∈ xs, Subid x) :
    base128 0 xs.flatten = xs.map value := by
  induction xs with
  | nil => rfl
  | cons x xs ih =>
    obtain ⟨hx, hxs⟩ := List.forall_mem_cons.mp h
    rw [List.flatten_cons, base128_append hx.terminated, ih hxs]
    rfl

/-- The high bits are known from the place, so the other bits determine the bytes. -/
theorem low_inj {x y : Bytes} (hx : isTerminated x = true) (hy : isTerminated y = true)
    (h : low x = low y) : x = y := by
  induction x using isTerminated.induct generalizing y with
  | case1 => simp [isTerminated] at hx
  | case2 a =>
    obtain _ | ⟨b, _ | ⟨c, w⟩⟩ := y
    · simp [low] at h
    · have ha : a.toNat < 128 := by simpa [isTerminated] using hx
      have hb : b.toNat < 128 := by simpa [isTerminated] using hy
      have hab : a.toNat % 128 = b.toNat % 128 := by simpa [low] using h
      rw [UInt8.toNat_inj.mp (by omega : a.toNat = b.toNat)]
    · simp [low] at h
  | case3 a a' v ih =>
    obtain _ | ⟨b, _ | ⟨c, w⟩⟩ := y
    · simp [low] at h
    · simp [low] at h
    · obtain ⟨ha, hv⟩ : 0x80 ≤ a.toNat ∧ isTerminated (a' :: v) = true := by
        simpa [isTerminated] using hx
      obtain ⟨hb, hw⟩ : 0x80 ≤ b.toNat ∧ isTerminated (c :: w) = true := by
        simpa [isTerminated] using hy
      obtain ⟨hab, hrest⟩ := List.cons.inj (show a.toNat % 128 :: low (a' :: v) =
        b.toNat % 128 :: low (c :: w) from h)
      have hlta := a.toNat_lt
      have hltb := b.toNat_lt
      rw [UInt8.toNat_inj.mp (by omega : a.toNat = b.toNat), ih hv hw hrest]

/-- A subidentifier has no leading zero, unless it is zero. -/
theorem dropWhile_low {x : Bytes} (h : Subid x) (hzero : low x ≠ [0]) :
    (low x).dropWhile (· == 0) = low x := by
  obtain ⟨hterm, hmin⟩ := h
  obtain _ | ⟨a, _ | ⟨b, v⟩⟩ := x
  · rfl
  · have hne : a.toNat % 128 ≠ 0 := fun heq => hzero (by simp [low, heq])
    simp [low, hne]
  · obtain ⟨ha, -⟩ : 0x80 ≤ a.toNat ∧ isTerminated (b :: v) = true := by
      simpa [isTerminated] using hterm
    have hne : a.toNat ≠ 0x80 := fun heq => hmin (congrArg some (UInt8.toNat_inj.mp heq))
    have hlt := a.toNat_lt
    have hdigit : a.toNat % 128 ≠ 0 := by omega
    simp [low, hdigit]

/-- The number determines the subidentifier. -/
theorem value_inj {x y : Bytes} (hx : Subid x) (hy : Subid y) (h : value x = value y) : x = y := by
  have hdrop : (low x).dropWhile (· == 0) = (low y).dropWhile (· == 0) := by
    apply List.reverse_injective
    rw [dropWhile_eq_digits (by decide) (fun _ => low_lt), dropWhile_eq_digits (by decide)
      (fun _ => low_lt)]
    exact congrArg _ h
  have hne : ∀ {z : Bytes}, Subid z → low z ≠ [] := by
    intro z hz heq
    rw [List.map_eq_nil_iff.mp heq] at hz
    exact absurd hz.terminated (by decide)
  refine low_inj hx.terminated hy.terminated ?_
  by_cases hxz : low x = [0]
  · by_cases hyz : low y = [0]
    · rw [hxz, hyz]
    · rw [dropWhile_low hy hyz, hxz] at hdrop
      exact absurd hdrop.symm (hne hy)
  · by_cases hyz : low y = [0]
    · rw [dropWhile_low hx hxz, hyz] at hdrop
      exact absurd hdrop (hne hx)
    · rwa [dropWhile_low hx hxz, dropWhile_low hy hyz] at hdrop

/-! ## The dotted text -/

theorem decimal_append_inj {m n : Nat} {r s : Str} (hr : ∀ c ∈ r.head?, isDigit c = false)
    (hs : ∀ c ∈ s.head?, isDigit c = false) (h : decimal m ++ r = decimal n ++ s) :
    m = n ∧ r = s := by
  have htake : ∀ {k : Nat} {t : Str}, (∀ c ∈ t.head?, isDigit c = false) →
      (decimal k ++ t).takeWhile isDigit = decimal k := by
    intro k t ht
    rw [List.takeWhile_append_of_pos fun _ => isDigit_of_mem_decimal]
    cases t with
    | nil => simp
    | cons c t => simp [ht c rfl]
  have hmn : m = n := decimal_injective (by rw [← htake hr, h, htake hs])
  rw [hmn] at h
  exact ⟨hmn, List.append_cancel_left h⟩

/-- The numbers are read off the text at the dots. -/
theorem dotted_inj {m n : Nat} {ps qs : List Nat} (h : dotted (m :: ps) = dotted (n :: qs)) :
    m = n ∧ ps = qs := by
  have hdot : ∀ t : Str, ∀ c ∈ (lit "." ++ t).head?, isDigit c = false := by
    intro t c hc
    obtain rfl : ofChar '.' = c := Option.some.inj hc
    decide
  induction ps generalizing m n qs with
  | nil =>
    obtain _ | ⟨q, qs⟩ := qs
    · exact ⟨decimal_injective h, rfl⟩
    · have hall : decimal m ++ [] = decimal n ++ (lit "." ++ dotted (q :: qs)) := by
        rw [List.append_nil, ← List.append_assoc]
        exact h
      exact absurd (decimal_append_inj (by simp) (hdot _) hall).2 (by simp [lit])
  | cons p ps ih =>
    have hleft : dotted (m :: p :: ps) = decimal m ++ (lit "." ++ dotted (p :: ps)) := by
      rw [dotted, List.append_assoc]
      simp
    rw [hleft] at h
    obtain _ | ⟨q, qs⟩ := qs
    · have hall : decimal m ++ (lit "." ++ dotted (p :: ps)) = decimal n ++ [] := by
        rw [List.append_nil]
        exact h
      exact absurd (decimal_append_inj (hdot _) (by simp) hall).2 (by simp [lit])
    · have hall : decimal m ++ (lit "." ++ dotted (p :: ps)) =
          decimal n ++ (lit "." ++ dotted (q :: qs)) := by
        rw [h, dotted, List.append_assoc]
        simp
      obtain ⟨hmn, hrest⟩ := decimal_append_inj (hdot _) (hdot _) hall
      obtain ⟨hpq, hps⟩ := ih (List.append_cancel_left hrest)
      exact ⟨hmn, by rw [hpq, hps]⟩

/-- The two numbers made of the first one add up to it again. -/
theorem oidText_inj {m n : Nat} {ps qs : List Nat} (h : oidText m ps = oidText n qs) :
    m = n ∧ ps = qs := by
  obtain ⟨htop, hrest⟩ := dotted_inj h
  obtain ⟨hsecond, hps⟩ := List.cons.inj hrest
  exact ⟨by omega, hps⟩

/-! ## Agreement -/

/-- A subidentifier is one byte, or a byte before the rest of it. -/
theorem Subid.exists_cons {x : Bytes} (h : Subid x) : ∃ a v, x = a :: v ∧
    (a.toNat < 0x80 ∧ v = [] ∨ 0x80 ≤ a.toNat ∧ isTerminated v = true) := by
  obtain ⟨hterm, -⟩ := h
  obtain _ | ⟨a, _ | ⟨b, v⟩⟩ := x
  · simp [isTerminated] at hterm
  · exact ⟨a, [], rfl, Or.inl ⟨by simpa [isTerminated] using hterm, rfl⟩⟩
  · exact ⟨a, b :: v, rfl, Or.inr (by simpa [isTerminated] using hterm)⟩

/-- The numbers determine the subidentifiers. -/
theorem flatten_inj {xs ys : List Bytes} (hxs : ∀ x ∈ xs, Subid x) (hys : ∀ y ∈ ys, Subid y)
    (h : base128 0 xs.flatten = base128 0 ys.flatten) : xs = ys := by
  rw [base128_flatten hxs, base128_flatten hys] at h
  induction xs generalizing ys with
  | nil => exact (List.map_eq_nil_iff.mp h.symm).symm
  | cons x xs ih =>
    obtain _ | ⟨y, ys⟩ := ys
    · simp at h
    · obtain ⟨hx, hxs⟩ := List.forall_mem_cons.mp hxs
      obtain ⟨hy, hys⟩ := List.forall_mem_cons.mp hys
      obtain ⟨hvalue, hrest⟩ := List.cons.inj h
      rw [value_inj hx hy hvalue, ih hxs hys hrest]

theorem war_oid {first : Bytes} {rest : List Bytes} (hfirst : Subid first)
    (hrest : ∀ x ∈ rest, Subid x) :
    WarCheck.oid (first ++ rest.flatten) = .ok (oidText (value first) (rest.map value)) := by
  rw [WarCheck.oid, base128_append hfirst.terminated, base128_flatten hrest]
  rfl

/-- `war_check._oid` tells all contents apart. -/
theorem war_oid_inj {v w : Bytes} (hv : WellFormed v) (hw : WellFormed w)
    (h : WarCheck.oid v = WarCheck.oid w) : v = w := by
  obtain ⟨x, xs, rfl, hx, hxs⟩ := hv
  obtain ⟨y, ys, rfl, hy, hys⟩ := hw
  rw [war_oid hx hxs, war_oid hy hys] at h
  obtain ⟨hfirst, hrest⟩ := oidText_inj (Except.ok.inj h)
  have hflat := flatten_inj hxs hys (by rwa [base128_flatten hxs, base128_flatten hys])
  rw [value_inj hx hy hfirst, hflat]

theorem tsa_oid {b : Bytes} {e : Elem} {a : UInt8} {v : Bytes} (h : e.content b = a :: v) :
    TsaSig.oid b e = .ok (oidText a.toNat (base128 0 v)) := by
  rw [TsaSig.oid, h]

/-- The readings agree only where the first subidentifier is one byte: behind a
longer one `tsa_sig.oid` finds one number more. -/
theorem shortFirst_of_same {b : Bytes} {e : Elem} (hwf : WellFormed (e.content b)) {t : Str}
    (hwar : WarCheck.oid (e.content b) = .ok t) (htsa : TsaSig.oid b e = .ok t) :
    ShortFirst (e.content b) := by
  obtain ⟨first, rest, hcontent, hfirst, hrest⟩ := hwf
  obtain ⟨a, v, rfl, ⟨ha, -⟩ | ⟨-, hv⟩⟩ := hfirst.exists_cons
  · intro x hx
    rw [hcontent] at hx
    rwa [← Option.some.inj hx]
  · have hcons : e.content b = a :: (v ++ rest.flatten) := hcontent
    rw [← htsa, tsa_oid hcons, hcontent, war_oid hfirst hrest, base128_append hv,
      base128_flatten hrest] at hwar
    have hlen := congrArg List.length (oidText_inj (Except.ok.inj hwar)).2
    simp at hlen

/-- Two contents with one text of `tsa_sig.oid` are one, where the first
subidentifier of one of them is one byte. -/
theorem tsa_oid_inj {b c : Bytes} {e f : Elem} (hwf : WellFormed (e.content b))
    (hshort : ShortFirst (e.content b)) (hwf' : WellFormed (f.content c))
    (h : TsaSig.oid c f = TsaSig.oid b e) : f.content c = e.content b := by
  obtain ⟨x, xs, hb, hx, hxs⟩ := hwf
  obtain ⟨y, ys, hc, hy, hys⟩ := hwf'
  obtain ⟨a, v, rfl, hav⟩ := hx.exists_cons
  obtain ⟨a', v', rfl, hav'⟩ := hy.exists_cons
  have ha : a.toNat < 0x80 := hshort a (by rw [hb]; rfl)
  rw [tsa_oid hb, tsa_oid hc] at h
  obtain ⟨hfirst, hrest⟩ := oidText_inj (Except.ok.inj h)
  obtain ⟨-, rfl⟩ := hav.resolve_right fun hlong => by omega
  obtain ⟨-, rfl⟩ := hav'.resolve_right fun hlong => by omega
  rw [hb, hc, UInt8.toNat_inj.mp hfirst, flatten_inj hys hxs hrest]

/-- An element with the content behind a tag and a length. -/
def sampleElem (v : Bytes) : Elem := ⟨0x06, 2, v.length + 2, 0, v.length + 2⟩

/-- A content as an element of its own. -/
def sampleOid (v : Bytes) : Bytes := 0x06 :: UInt8.ofNat v.length :: v

theorem subid_single {a : UInt8} (h : a.toNat < 0x80) : Subid [a] := by
  refine ⟨by simpa [isTerminated] using h, fun heq => ?_⟩
  rw [Option.some.inj heq] at h
  exact absurd h (by decide)

end Preaction.ObjectId
