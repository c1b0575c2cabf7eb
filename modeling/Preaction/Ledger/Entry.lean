import Mathlib.Data.List.Basic
import Preaction.Py.Runtime

/-!
# The entries of the public ledger

From entry 40 on, an entry of the ledger carries a `chain` member with two
hashes and the head before it:

- `content_hash` is the SHA-256 of the canonical JSON of the record;
- `head_hash` is the SHA-256 of `content_hash|prev_head_hash`.

Two checkers of the repository recompute them, `session_chain_check.py` and
`check_chain_continuity.py`. They share this module: the entry, the two
formulas, and what equal heads say about two entries whose hashes recompute
(`Recomputes.eq_of_head_eq`).

Mirroring notes:
- An entry number is an `int`. The record and the members of `chain` are any
  JSON values, as neither checker asks for a type.
- The text of a member that is not a `str` is what an f-string gives for it.
-/

namespace Preaction.Ledger

open Preaction.Py

variable (R : Runtime)

/-- `e["chain"]` -/
structure Chain where
  prevHeadHash : Json
  contentHash : Json
  headHash : Json
  deriving DecidableEq

/-- An entry of the ledger. -/
structure Entry where
  entry : Int
  record : Json
  chain : Chain
  deriving DecidableEq

/-- `content_hash(record)` -/
def contentHash (record : Json) : Except PyError Str := R.sha256Text (R.canonText record)

/-- `f"{c_hash}|{prev_head}"` -/
def headText (cHash prevHead : Json) : Str := R.str cHash ++ ofChar '|' :: R.str prevHead

/-- `head_hash(c_hash, prev_head)` -/
def headHash (cHash prevHead : Json) : Except PyError Str :=
  R.sha256Text (headText R cHash prevHead)

/-- Both hashes of the entry recompute. -/
structure Recomputes (e : Entry) : Prop where
  content : ∃ c, contentHash R e.record = .ok c ∧ e.chain.contentHash = .str c
  head : ∃ h, headHash R e.chain.contentHash e.chain.prevHeadHash = .ok h ∧
    e.chain.headHash = .str h

variable {R}

/-- A content hash holds no `|`. -/
theorem bar_notMem_contentHash {record : Json} {c : Str} (h : contentHash R record = .ok c) :
    ofChar '|' ∉ c := by
  have hdigit : ∀ n < 16, ofChar '|' ≠ hexDigit n := by decide
  obtain ⟨b, -, rfl⟩ := Runtime.sha256Text_ok h
  intro hbar
  obtain ⟨n, hn, hc⟩ := mem_hexStr hbar
  exact hdigit n hn hc

/-- Two entries with one head hold one record, and name one head before them. -/
theorem Recomputes.eq_of_head_eq (hsha : Function.Injective R.sha256)
    (hf : R.dumpsFormat.Lawful) {a b : Entry} (ha : Recomputes R a) (hb : Recomputes R b)
    (h : a.chain.headHash = b.chain.headHash) :
    Json.SameValue a.record b.record ∧
      R.str a.chain.prevHeadHash = R.str b.chain.prevHeadHash := by
  obtain ⟨⟨c, hc, hc'⟩, ⟨x, hx, hx'⟩⟩ := ha
  obtain ⟨⟨d, hd, hd'⟩, ⟨y, hy, hy'⟩⟩ := hb
  obtain rfl : x = y := Json.str.inj (hx'.symm.trans (h.trans hy'))
  have htext := Runtime.sha256Text_inj hsha hx hy
  rw [headText, headText, hc', hd'] at htext
  -- the text splits at its first bar
  obtain ⟨hcd, hprev⟩ :=
    append_cons_inj (bar_notMem_contentHash hc) (bar_notMem_contentHash hd) htext
  have hcd : c = d := hcd
  subst hcd
  exact ⟨R.normWith_eq_of_canonText_eq hf (Runtime.sha256Text_inj hsha hc hd), hprev⟩

/-! ## A ledger to run -/

/-- The entries for the given records, numbered from `n` on the head `prev`, as the
writer of the ledger chains them. -/
def chained (R : Runtime) (n : Int) (prev : Str) : List Json → List Entry
  | [] => []
  | record :: records =>
    let c := R.sha256Hex (utf8Bytes (R.canonText record))
    let h := R.sha256Hex (utf8Bytes (headText R (.str c) (.str prev)))
    ⟨n, record, ⟨.str prev, .str c, .str h⟩⟩ :: chained R (n + 1) h records

/-- Three entries, from entry 40 on. -/
def sampleLedger (R : Runtime) : List Entry :=
  chained R 40 (lit "genesis") [text "a", object [("k", .int 1)], .arr []]

end Preaction.Ledger
