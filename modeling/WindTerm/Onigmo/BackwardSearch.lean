import WindTerm.Library.Fuel
import Mathlib.Algebra.Group.Nat.Defs
import Mathlib.Algebra.Ring.Int.Defs
import Mathlib.Logic.Function.Basic

/-!
# The backward search of `regexec.c`

Onigmo reads a text through an `OnigIterator`, here the function `charAt` on all
positions, inside the text and outside. Positions are signed 64-bit integers and
distances unsigned ones; `position` is the conversion the source makes where the
two meet. The encoding is a single-byte one. Every loop is a `loop` with fuel,
and `match_at`, which is not modelled, is an arbitrary function of the start
positions it has been called with so far.
-/

namespace WindTerm.Onigmo

open Library

/-! ## Positions, distances and flags -/

/-- The `OnigPosition` of a computation with the exact result `x`. -/
def position (x : Int) : Int := x.bmod (2 ^ 64)

/-- `ONIG_BADPOS`. -/
def badPos : Int := -1

/-- `ONIG_MISMATCH`. -/
def onigMismatch : Int := -1

/-- `ONIG_INFINITE_DISTANCE`. -/
def infiniteDistance : UInt64 := 0xFFFFFFFFFFFFFFFF

/-- The values of `reg->optimize`. -/
inductive Optimize where
  | none
  | exact
  | exactBM
  | exactBMNotRev
  | exactIC
  | map
  | exactBMIC
  | exactBMNotRevIC
  deriving DecidableEq, Repr

/-! ## Single-byte encodings -/

/-- What single-byte encodings differ in: `mbc_case_fold_se` of one byte, under
the flags of the regex. -/
structure Encoding where
  mbcCaseFold : UInt8 → List UInt8
  mbcCaseFold_ne_nil : ∀ c, mbcCaseFold c ≠ []

/-- `onigenc_single_byte_left_adjust_char_head_se`. -/
def leftAdjustCharHead (_start s : Int) : Int := s

/-- `onigenc_get_right_adjust_char_head_se`. -/
def rightAdjustCharHead (start s : Int) : Int :=
  let p := leftAdjustCharHead start s
  if p < s then p + 1 else p

/-- `onigenc_get_prev_char_head_se`. -/
def getPrevCharHead (start s : Int) : Int :=
  if s ≤ start then badPos else leftAdjustCharHead start (s - 1)

/-- `onigenc_is_mbc_newline_0x0a_se`. -/
def isMbcNewline (charAt : Int → UInt8) (p textEnd : Int) : Bool :=
  decide (p < textEnd) && charAt p == 0x0A

/-- The second loop of `set_bm_backward_skip`, from the index `n` down to 1. -/
def fillBackwardSkip (exact : Nat → UInt8) : Nat → (UInt8 → Nat) → UInt8 → Nat
  | 0, skip => skip
  | n + 1, skip => fillBackwardSkip exact n (Function.update skip (exact (n + 1)) (n + 1))

/-- `set_bm_backward_skip`; the memory for the table is there. -/
def setBmBackwardSkip (exact : Nat → UInt8) (len : Nat) : UInt8 → Nat :=
  fillBackwardSkip exact (len - 1) fun _ => len

/-- The fields of `regex_t` the backward search reads, without `anchor`, which is
0. `exact` is the memory from `reg->exact` on, of which `exactLen` bytes, up to
`reg->exact_end`, are the string looked for. -/
structure Regex where
  enc : Encoding
  newlineCRLF : Bool
  findLongest : Bool
  optimize : Optimize
  thresholdLen : Int
  subAnchor : Nat
  exact : Nat → UInt8
  exactLen : Nat
  map : UInt8 → UInt8
  intMapBackward : Option (UInt8 → Nat)
  dmin : UInt64
  dmax : UInt64
  dmin_le_dmax : dmin ≤ dmax
  /-- An empty string is never looked for. -/
  exactLen_pos : optimize ≠ .none → optimize ≠ .map → 0 < exactLen
  /-- The table is only ever built from the string. -/
  intMapBackward_eq : ∀ skip, intMapBackward = some skip → skip = setBmBackwardSkip exact exactLen

/-- The text and the arguments of a call, with the positions in order, as they
are where a backward search begins: an empty text has a branch of its own before. -/
structure Call where
  charAt : Int → UInt8
  reg : Regex
  str : Int
  textEnd : Int
  start : Int
  range : Int
  str_nonneg : 0 ≤ str
  str_le_range : str ≤ range
  range_le_start : range ≤ start
  start_le_textEnd : start ≤ textEnd
  str_lt_textEnd : str < textEnd
  textEnd_lt : textEnd < 2 ^ 63

namespace Call

variable (c : Call)

/-! ## Looking for the string or for a byte of the map -/

/-- The next `n` bytes of the string, from the index `t` on, are those of the
text from `p` on. -/
def sameBytes : Nat → Nat → Int → Bool
  | 0, _, _ => true
  | n + 1, t, p => c.charAt p == c.reg.exact t && sameBytes n (t + 1) (p + 1)

/-- The test of `slow_search_backward_se`. -/
def exactAt (s : Int) : Bool :=
  c.charAt s == c.reg.exact 0 && c.sameBytes (c.reg.exactLen - 1) 1 (s + 1)

/-- The bytes of a folded character against the string from the index `t` on. -/
def foldedAt : Nat → List UInt8 → Bool
  | _, [] => true
  | t, q :: lowbuf => c.reg.exact t == q && foldedAt (t + 1) lowbuf

/-- `str_lower_case_match_se`, from the index `t` of the string on. -/
def strLowerCaseMatch (t : Nat) (p : Int) : Bool :=
  if t < c.reg.exactLen then
    let lowbuf := c.reg.enc.mbcCaseFold (c.charAt p)
    if c.foldedAt t lowbuf then strLowerCaseMatch (t + lowbuf.length) (p + 1) else false
  else true
termination_by c.reg.exactLen - t
decreasing_by
  have nonempty : 0 < (c.reg.enc.mbcCaseFold (c.charAt p)).length :=
    List.length_pos_iff.mpr (c.reg.enc.mbcCaseFold_ne_nil _)
  omega

/-- The loop of the backward searches: from `s` down to `text`. -/
def scan (test : Int → Bool) (back : Int → Int) (text : Int) : Nat → Int → Option Int :=
  loop fun _ s => some <|
    if text ≤ s then
      if test s then .inr s else .inl (back s)
    else .inr badPos

/-- Where a search goes when it leaves its loops: to `match`, to `finish` with a
value of `match_at`, or to `mismatch`. -/
inductive Outcome where
  | matched (s : Int)
  | finished (r : Int)
  | mismatch
  deriving DecidableEq, Repr

variable (matchAt : List Int → Int)

/-- `MATCH_AND_RETURN_CHECK`, the last of `calls` being the call at `s`. -/
def matchAndReturnCheck (calls : List Int) (s : Int) : Option Outcome :=
  let r := matchAt calls
  if r ≠ onigMismatch then
    if 0 ≤ r then
      if !c.reg.findLongest then some (.matched s) else none
    else some (.finished r)
  else none

/-- The variables of the outer loop, and the calls of `match_at` so far. -/
structure State where
  s : Int
  low : Int
  high : Int
  intMapBackward : Option (UInt8 → Nat)
  calls : List Int

end Call

end WindTerm.Onigmo
