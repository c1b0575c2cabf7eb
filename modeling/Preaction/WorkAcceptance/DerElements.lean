import Preaction.Lib.Loop
import Preaction.WorkAcceptance.TsaSig

/-!
# Whether the elements of a container tile it

`tlv` checks that an element ends within the token, `children` that the next one
starts within the container. Between the two an element may start in a container and
end behind it (`Overruns`); the loop then stops and returns it as the last one.

`Whole` is what one element is, as bytes, and `tlv` reads exactly these
(`tlv_ok_iff`).
-/

namespace Preaction.TsaSig

open Preaction.Py Preaction.Loop

/-! ## One element -/

/-- A whole element: a tag of one byte, a definite length in one byte or in up to four
more, and that many bytes of content. -/
inductive Whole : Bytes → Prop
  | short {tag len : UInt8} {content : Bytes} (htag : tag.toNat % 0x20 ≠ 0x1F)
      (hlen : len.toNat < 0x80) (hcontent : content.length = len.toNat) :
      Whole (tag :: len :: content)
  | long {tag len : UInt8} {size content : Bytes} (htag : tag.toNat % 0x20 ≠ 0x1F)
      (hlen : len.toNat = 0x80 + size.length) (hpos : 0 < size.length) (hmax : size.length ≤ 4)
      (hcontent : content.length = fromBytesBig size) : Whole (tag :: len :: (size ++ content))

theorem Whole.two_le {el : Bytes} (h : Whole el) : 2 ≤ el.length := by
  cases h with
  | short => simp
  | long => simp

theorem byteAt_eq {b rest : Bytes} {i : Nat} {x : UInt8} (h : b.drop i = x :: rest) :
    byteAt b i = .ok x := by
  have hget : b[i]? = some x := by
    have hdrop : (b.drop i)[0]? = b[i + 0]? := List.getElem?_drop
    rw [h] at hdrop
    exact hdrop.symm
  rw [byteAt, hget]

theorem drop_eq_of_byteAt {b : Bytes} {i : Nat} {x : UInt8} (h : byteAt b i = .ok x) :
    b.drop i = x :: b.drop (i + 1) := by
  unfold byteAt at h
  split at h
  next y hy =>
    obtain rfl := Except.ok.inj h
    obtain ⟨hlt, rfl⟩ := List.getElem?_eq_some_iff.mp hy
    exact List.drop_eq_getElem_cons hlt
  next => cases h

theorem span_eq_take (b : Bytes) (i n : Nat) : span b i (i + n) = (b.drop i).take n := by
  rw [span, List.drop_take, Nat.add_sub_cancel_left]

/-- `tlv` once tag and first length byte are known. -/
theorem tlv_eq {b : Bytes} {i : Nat} {tag ln : UInt8} (htag : byteAt b i = .ok tag)
    (hln : byteAt b (i + 1) = .ok ln) (hone : tag.toNat % 0x20 ≠ 0x1F) : tlv b i =
      if 0x80 ≤ ln.toNat ∧ (ln.toNat - 0x80 = 0 ∨ 4 < ln.toNat - 0x80) then .error .valueError
      else
        let (n, j) := if ln.toNat < 0x80 then (ln.toNat, i + 2)
          else (fromBytesBig (span b (i + 2) (i + 2 + (ln.toNat - 0x80))),
            i + 2 + (ln.toNat - 0x80))
        if b.length < j + n then .error .valueError else .ok ⟨tag, j, j + n, i, j + n⟩ := by
  unfold tlv
  rw [htag]
  change (pure tag >>= _) = _
  rw [pure_bind, if_neg hone, hln]
  change (pure ln >>= _) = _
  rw [pure_bind]
  rfl

/-- An element that is read is whole, and ends where it says. -/
theorem tlv_ok {b : Bytes} {i : Nat} {e : Elem} (h : tlv b i = .ok e) :
    e.pos = i ∧ ∃ el rest, b.drop i = el ++ rest ∧ Whole el ∧ e.next = i + el.length := by
  obtain ⟨tag, htag, h⟩ := bind_ok.mp h
  split at h
  next => cases h
  next hone =>
    obtain ⟨ln, hln, h⟩ := bind_ok.mp h
    have hdrop := drop_eq_of_byteAt htag
    rw [drop_eq_of_byteAt hln] at hdrop
    have hlen : (b.drop (i + 2)).length = b.length - (i + 2) := List.length_drop
    extract_lets k at h
    by_cases hform : 0x80 ≤ ln.toNat ∧ (k = 0 ∨ 4 < k)
    · rw [if_pos hform] at h
      cases h
    rw [if_neg hform] at h
    by_cases hshort : ln.toNat < 0x80
    · rw [if_pos hshort] at h
      dsimp only at h
      split at h
      next => cases h
      next hfit =>
        obtain rfl := Except.ok.inj h
        refine ⟨rfl, tag :: ln :: (b.drop (i + 2)).take ln.toNat, (b.drop (i + 2)).drop ln.toNat,
          ?_, .short hone hshort ?_, ?_⟩
        · rw [hdrop, List.cons_append, List.cons_append, List.take_append_drop]
        · rw [List.length_take, hlen]
          omega
        · rw [List.length_cons, List.length_cons, List.length_take, hlen]
          show i + 2 + ln.toNat = _
          omega
    · rw [if_neg hshort] at h
      dsimp only at h
      split at h
      next => cases h
      next hfit =>
        obtain rfl := Except.ok.inj h
        rw [span_eq_take] at hfit ⊢
        generalize hsize : (b.drop (i + 2)).take k = size at hfit ⊢
        have hsizelen : size.length = k := by
          rw [← hsize, List.length_take, hlen]
          omega
        have hk : k = ln.toNat - 0x80 := rfl
        refine ⟨rfl, tag :: ln :: (size ++ ((b.drop (i + 2)).drop k).take (fromBytesBig size)),
          ((b.drop (i + 2)).drop k).drop (fromBytesBig size), ?_,
          .long hone (by omega) (by omega) (by omega) ?_, ?_⟩
        · rw [hdrop, List.cons_append, List.cons_append, List.append_assoc, List.take_append_drop,
            ← hsize, List.take_append_drop]
        · rw [List.length_take, List.length_drop, hlen]
          omega
        · rw [List.length_cons, List.length_cons, List.length_append, List.length_take,
            List.length_drop, hlen, hsizelen]
          show i + 2 + k + fromBytesBig size = _
          omega

/-- Every whole element is read, wherever it stands. -/
theorem tlv_of_whole {b el rest : Bytes} {i : Nat} (hdrop : b.drop i = el ++ rest)
    (hel : Whole el) : ∃ e, tlv b i = .ok e ∧ e.pos = i ∧ e.next = i + el.length := by
  have hlen := congrArg List.length hdrop
  rw [List.length_drop, List.length_append] at hlen
  have htwo := hel.two_le
  have hdrop2 {tag ln : UInt8} {tail : Bytes} (h : b.drop i = tag :: ln :: tail) :
      byteAt b i = .ok tag ∧ byteAt b (i + 1) = .ok ln ∧ b.drop (i + 2) = tail := by
    have h1 : b.drop (i + 1) = ln :: tail := by
      rw [← List.drop_drop, h, List.drop_succ_cons, List.drop_zero]
    have h2 : b.drop (i + 2) = tail := by
      rw [← List.drop_drop, h, List.drop_succ_cons, List.drop_succ_cons, List.drop_zero]
    exact ⟨byteAt_eq h, byteAt_eq h1, h2⟩
  cases hel with
  | @short tag ln content htag hshort hcontent =>
    obtain ⟨hb, hb', -⟩ := hdrop2 hdrop
    rw [List.length_cons, List.length_cons] at hlen ⊢
    refine ⟨⟨tag, i + 2, i + 2 + ln.toNat, i, i + 2 + ln.toNat⟩, ?_, rfl, ?_⟩
    · rw [tlv_eq hb hb' htag, if_neg (by omega), if_pos hshort]
      dsimp only
      rw [if_neg (by omega)]
    · show i + 2 + ln.toNat = _
      omega
  | @long tag ln size content htag hform hpos hmax hcontent =>
    obtain ⟨hb, hb', hb''⟩ := hdrop2 hdrop
    rw [List.length_cons, List.length_cons, List.length_append] at hlen ⊢
    have hk : ln.toNat - 0x80 = size.length := by omega
    have hsize : span b (i + 2) (i + 2 + size.length) = size := by
      rw [span_eq_take, hb'']
      show (size ++ content ++ rest).take size.length = size
      rw [List.append_assoc, List.take_left]
    refine ⟨⟨tag, i + 2 + size.length, i + 2 + size.length + content.length, i,
      i + 2 + size.length + content.length⟩, ?_, rfl, ?_⟩
    · rw [tlv_eq hb hb' htag, hk, if_neg (by omega), if_neg (by omega), hsize, ← hcontent]
      dsimp only
      rw [if_neg (by omega)]
    · show i + 2 + size.length + content.length = _
      omega

/-- Two whole elements at one place are one. -/
theorem Whole.unique {el el' rest rest' : Bytes} (h : el ++ rest = el' ++ rest') (hel : Whole el)
    (hel' : Whole el') : el = el' ∧ rest = rest' := by
  obtain ⟨e, he, -, hnext⟩ := tlv_of_whole (i := 0) rfl hel
  obtain ⟨e', he', -, hnext'⟩ := tlv_of_whole (i := 0) (b := el ++ rest) h hel'
  obtain rfl := Except.ok.inj (he.symm.trans he')
  exact List.append_inj h (by omega)

/-! ## The elements of a range -/

/-- The elements follow one another from `s` to `e`: the first starts at `s`, each
where the one before it ends, and the last ends at `e`. -/
def Tiles (s e : Nat) : List Elem → Prop
  | [] => s = e
  | el :: els => el.pos = s ∧ el.pos < el.next ∧ Tiles el.next e els

/-- Reading whole elements from `s` on, one comes that starts before `e` and ends behind it. -/
def Overruns (b : Bytes) (s e : Nat) : Prop :=
  ∃ (els : List Bytes) (el rest : Bytes), b.drop s = els.flatten ++ (el ++ rest) ∧
    (∀ x ∈ els, Whole x) ∧ Whole el ∧
    s + els.flatten.length < e ∧ e < s + els.flatten.length + el.length

theorem Tiles.le {s e : Nat} {els : List Elem} (h : Tiles s e els) : s ≤ e := by
  induction els generalizing s with
  | nil => exact Nat.le_of_eq h
  | cons el els ih =>
    obtain ⟨hpos, hlt, hrest⟩ := h
    have := ih hrest
    omega

/-- No element of a tiled range reaches out of it. -/
theorem Tiles.within {s e : Nat} {els : List Elem} (h : Tiles s e els) :
    ∀ el ∈ els, s ≤ el.pos ∧ el.next ≤ e := by
  induction els generalizing s with
  | nil => exact List.forall_mem_nil _
  | cons el els ih =>
    obtain ⟨hpos, hlt, hrest⟩ := h
    refine List.forall_mem_cons.mpr ⟨⟨hpos.ge, hrest.le⟩, fun x hx => ?_⟩
    have := ih hrest x hx
    omega

/-- Nothing overruns the end of the token. -/
theorem not_overruns_length (b : Bytes) (s : Nat) : ¬ Overruns b s b.length := by
  rintro ⟨els, el, rest, hdrop, -, -, hlt, hgt⟩
  have hlen := congrArg List.length hdrop
  rw [List.length_drop, List.length_append, List.length_append] at hlen
  omega

theorem not_overruns_end (b : Bytes) (s : Nat) : ¬ Overruns b s s := by
  rintro ⟨els, el, rest, -, -, -, hlt, -⟩
  omega

/-- What overruns is the element that stands first, or comes behind it. -/
theorem overruns_cons {b el rest : Bytes} {s e : Nat} (hdrop : b.drop s = el ++ rest)
    (hel : Whole el) (hse : s < e) :
    Overruns b s e ↔ e < s + el.length ∨ Overruns b (s + el.length) e := by
  have hnext : b.drop (s + el.length) = rest := by
    rw [← List.drop_drop, hdrop, List.drop_left]
  constructor
  · rintro ⟨els, el', rest', heq, hels, hel', hlt, hgt⟩
    rw [hdrop] at heq
    cases els with
    | nil =>
      rw [List.flatten_nil, List.nil_append] at heq
      obtain ⟨rfl, -⟩ := Whole.unique heq hel hel'
      exact .inl hgt
    | cons x els =>
      obtain ⟨hx, hels⟩ := List.forall_mem_cons.mp hels
      rw [List.flatten_cons, List.append_assoc] at heq
      obtain ⟨hxel, hrest⟩ := Whole.unique heq hel hx
      rw [List.flatten_cons, List.length_append, ← hxel] at hlt hgt
      exact .inr ⟨els, el', rest', hnext.trans hrest, hels, hel', by omega, by omega⟩
  · rintro (hgt | ⟨els, el', rest', heq, hels, hel', hlt, hgt⟩)
    · exact ⟨[], el, rest, hdrop, List.forall_mem_nil _, hel, hse, hgt⟩
    · refine ⟨el :: els, el', rest', ?_, List.forall_mem_cons.mpr ⟨hel, hels⟩, hel', ?_, ?_⟩
      · rw [List.flatten_cons, List.append_assoc, ← heq, hnext, hdrop]
      · rw [List.flatten_cons, List.length_append]
        omega
      · rw [List.flatten_cons, List.length_append]
        omega

/-- Where no whole element stands, nothing overruns. -/
theorem not_overruns_of_error {b : Bytes} {s e : Nat} {err : PyError} (h : tlv b s = .error err) :
    ¬ Overruns b s e := by
  have hno {el rest : Bytes} (hdrop : b.drop s = el ++ rest) (hel : Whole el) : False := by
    obtain ⟨e', he', -⟩ := tlv_of_whole hdrop hel
    cases h.symm.trans he'
  rintro ⟨els, el, rest, hdrop, hels, hel, -⟩
  cases els with
  | nil =>
    rw [List.flatten_nil, List.nil_append] at hdrop
    exact hno hdrop hel
  | cons x els =>
    rw [List.flatten_cons, List.append_assoc] at hdrop
    exact hno hdrop (hels x List.mem_cons_self)

/-- The loop, from any place in the range. -/
theorem childrenAux_tiles_iff {b : Bytes} {stop fuel i : Nat} (hi : i ≤ stop)
    (hfuel : stop - i ≤ fuel) :
    (∀ els, childrenAux b stop fuel i = .ok els → Tiles i stop els) ↔ ¬ Overruns b i stop := by
  induction fuel generalizing i with
  | zero =>
    obtain rfl : i = stop := by omega
    refine iff_of_true (fun els h => ?_) (not_overruns_end b i)
    obtain rfl := Except.ok.inj h
    rfl
  | succ fuel ih =>
    rw [childrenAux]
    by_cases hlt : i < stop
    · rw [if_pos hlt]
      cases ht : tlv b i with
      | error err =>
        refine iff_of_true (fun els h => ?_) (not_overruns_of_error ht)
        cases h
      | ok el =>
        obtain ⟨hpos, bytes, rest, hdrop, hwhole, hnext⟩ := tlv_ok ht
        have htwo := hwhole.two_le
        change (∀ els, (childrenAux b stop fuel el.next >>= fun more => pure (el :: more)) =
          .ok els → Tiles i stop els) ↔ _
        rw [overruns_cons hdrop hwhole hlt, not_or, ← hnext]
        have hcons (more : List Elem) :
            Tiles i stop (el :: more) ↔ Tiles el.next stop more := by
          refine ⟨fun h => h.2.2, fun h => ⟨hpos, by omega, h⟩⟩
        by_cases hover : stop < el.next
        · -- the loop ends here, behind the range
          refine iff_of_false (fun hall => ?_) (fun h => h.1 hover)
          have hempty : childrenAux b stop fuel el.next = .ok [] := by
            cases fuel with
            | zero => rfl
            | succ fuel => exact if_neg (by omega)
          have h := (hcons []).mp (hall [el] (by rw [hempty]; rfl))
          exact absurd (show el.next = stop from h) (by omega)
        · rw [and_iff_right hover, ← ih (by omega) (by omega)]
          constructor
          · intro hall more hmore
            exact (hcons more).mp (hall (el :: more) (by rw [hmore]; rfl))
          · intro hall els h
            obtain ⟨more, hmore, h⟩ := bind_ok.mp h
            obtain rfl := Except.ok.inj h
            exact (hcons more).mpr (hall more hmore)
    · rw [if_neg hlt]
      obtain rfl : i = stop := by omega
      refine iff_of_true (fun els h => ?_) (not_overruns_end b i)
      obtain rfl := Except.ok.inj h
      rfl

/-- **When the elements of a range tile it.** What `children` returns tiles the range
exactly when no element of it overruns its end. -/
theorem children_tiles_iff {b : Bytes} {s e : Nat} (hs : s ≤ e) (_ : e ≤ b.length) :
    (∀ els, children b s e = .ok els → Tiles s e els) ↔ ¬ Overruns b s e :=
  childrenAux_tiles_iff hs le_rfl

/-- Two elements that fill the token. -/
theorem children_tiles_pair :
    ∃ els, children [0x02, 1, 5, 0x02, 1, 6] 0 6 = .ok els ∧ Tiles 0 6 els := by
  have hread : children [0x02, 1, 5, 0x02, 1, 6] 0 6 =
      .ok [⟨0x02, 2, 3, 0, 3⟩, ⟨0x02, 5, 6, 3, 6⟩] := by decide
  have hinside := not_overruns_length [0x02, 1, 5, 0x02, 1, 6] 0
  exact ⟨_, hread, (children_tiles_iff (by decide) (by decide)).mpr hinside _ hread⟩

/-- A SEQUENCE of two bytes, with an element of three bytes in it. -/
def overrunSequence : Bytes := [0x30, 2, 0x04, 1, 0xFF]

/-- The element that is returned ends behind the SEQUENCE. -/
theorem overrunSequence_not_tiled : ¬ ∀ (b : Bytes) (s e : Nat), s ≤ e → e ≤ b.length →
    ∀ els, children b s e = .ok els → Tiles s e els := by
  intro hall
  have hread : children overrunSequence 2 4 = .ok [⟨0x04, 4, 5, 2, 5⟩] := by decide
  have htiles := hall overrunSequence 2 4 (by decide) (by decide) _ hread
  exact absurd (show 5 = 4 from htiles.2.2) (by decide)

end Preaction.TsaSig
