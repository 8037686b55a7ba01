import WindTerm.Library.QuickSearch
import WindTerm.Onigmo.BackwardSearch

/-!
# The forward search of `regexec.c`

The other direction of `onig_search_gpos`, with what stands before both: the
anchors that narrow the range. Of `set_bm_skip` and the searches the variants for
Sunday's quick search are modelled, which `USE_SUNDAY_QUICK_SEARCH` selects. The
searches go over characters of any lengths, those that ignore case with the foldings
of a single-byte encoding; `onig_search_gpos` itself is the one for single-byte
encodings. Here `match_at` is a function of `msa.gpos`, of the best match so far, of
the start position and the one before it.
-/

namespace WindTerm.Onigmo

open Library

/-! ## Flags -/

/-- `ONIG_CHAR_TABLE_SIZE`. -/
def onigCharTableSize : Nat := 256

/-! ## The table of the quick search -/

/-- `OnigCaseFoldCodeItem`; `code_len` is the length of `code`. -/
structure CaseFoldCodeItem where
  byteLen : Nat
  code : List Nat

/-- The table that `set_bm_skip` fills: `reg->map` or `reg->int_map`. -/
inductive BMSkip where
  | map (skip : UInt8 → UInt8)
  | intMap (skip : UInt8 → Int)

/-- The codes `ONIGENC_GET_CASE_FOLD_CODES_BY_STR` gives for the string from the
index `i` on. -/
def caseFoldItems (codesByStr : List UInt8 → List CaseFoldCodeItem) (ignoreCase : Bool)
    (exact : Nat → UInt8) (len i : Nat) : List CaseFoldCodeItem :=
  if ignoreCase then codesByStr ((List.range (len - i)).map fun j => exact (i + j)) else []

/-- The entry for a byte. -/
def BMSkip.entry : BMSkip → UInt8 → Int
  | .map skip, b => (skip b).toNat
  | .intMap skip, b => skip b

/-- The table in use: `int_map` if it is there. -/
def BMSkip.ofTables (map : UInt8 → UInt8) : Option (UInt8 → Int) → BMSkip
  | none => .map map
  | some skip => .intMap skip

/-- The code and the byte are one for one. -/
def CaseFoldCodeItem.isSingle (item : CaseFoldCodeItem) : Bool :=
  item.code.length == 1 && item.byteLen == 1

/-- `onigenc_single_byte_code_to_mbc` of `code[0]`. -/
def CaseFoldCodeItem.byte (item : CaseFoldCodeItem) : UInt8 := UInt8.ofNat (item.code.headD 0)

/-- The bytes whose entries the turn for the index `i` sets. -/
def skipSymbols (codesByStr : List UInt8 → List CaseFoldCodeItem) (ignoreCase : Bool)
    (exact : Nat → UInt8) (len i : Nat) : List UInt8 :=
  exact i :: (caseFoldItems codesByStr ignoreCase exact len i).map (·.byte)

/-- `set_bm_skip`; `none` when it returns 1. The memory for `int_map` is there. With
case respected, the bytes of a longer character are set one by one too. -/
def setBmSkip (codesByStr : List UInt8 → List CaseFoldCodeItem) (ignoreCase : Bool)
    (exact : Nat → UInt8) (len : Nat) : Option BMSkip :=
  if (List.range len).all fun i =>
      (caseFoldItems codesByStr ignoreCase exact len i).all (·.isSingle) then
    let symbols := skipSymbols codesByStr ignoreCase exact len
    if len < onigCharTableSize then
      some (.map (writeAll symbols (fun i => UInt8.ofNat (len - i))
        (fun _ => UInt8.ofNat (len + 1)) len))
    else
      some (.intMap (writeAll symbols (fun i => Int.bmod (len - i : Nat) (2 ^ 32))
        (fun _ => Int.bmod (len + 1 : Nat) (2 ^ 32)) len))
  else none

/-! ## The regex and the call -/

namespace Optimize

/-- The searches that use the table. -/
def usesSkip : Optimize → Bool
  | .exactBM | .exactBMNotRev | .exactBMIC | .exactBMNotRevIC => true
  | _ => false

/-- The searches that ignore case. -/
def ignoresCase : Optimize → Bool
  | .exactIC | .exactBMIC | .exactBMNotRevIC => true
  | _ => false

end Optimize

/-- The fields of `regex_t` a forward search reads besides. The table and the
threshold are those that `set_optimize_exact_info` and `set_optimize_map_info`
set. -/
structure ForwardRegex extends Regex where
  anchor : Nat
  anchorDmin : UInt64
  anchorDmax : UInt64
  anchorDmin_le : anchorDmin ≤ anchorDmax
  intMap : Option (UInt8 → Int)
  codesByStr : List UInt8 → List CaseFoldCodeItem
  skip_built : optimize.usesSkip = true →
    setBmSkip codesByStr optimize.ignoresCase exact exactLen =
      some (BMSkip.ofTables map intMap)
  thresholdLen_eq : optimize ≠ .none → dmin ≠ infiniteDistance →
    thresholdLen = Int.bmod (dmin.toNat + if optimize = .map then 1 else exactLen : Nat) (2 ^ 32)

/-- The entry of the table in use. -/
def ForwardRegex.skip (reg : ForwardRegex) (b : UInt8) : Int :=
  (BMSkip.ofTables reg.map reg.intMap).entry b

/-- The text and the arguments of a forward search, with the positions in order.
The distances of the regex lead to no place over the positions there are. -/
structure ForwardCall where
  charAt : Int → UInt8
  reg : ForwardRegex
  str : Int
  textEnd : Int
  globalPos : Int
  start : Int
  range : Int
  str_nonneg : 0 ≤ str
  str_le_start : str ≤ start
  start_lt_range : start < range
  range_le_textEnd : range ≤ textEnd
  dmin_fits : textEnd + reg.exactLen + reg.dmin.toNat < 2 ^ 63
  dmax_fits : reg.dmax ≠ infiniteDistance → textEnd + reg.exactLen + reg.dmax.toNat < 2 ^ 63

/-- `msa`, as far as a search reads it. -/
structure MatchArg where
  bestLen : Int
  bestS : Int
  deriving DecidableEq, Repr

/-- `MATCH_ARG_INIT`, which leaves `best_s` as it is. -/
def MatchArg.init : MatchArg := { bestLen := onigMismatch, bestS := 0 }

/-- `match_at`: from `msa.gpos`, `msa`, the start position and the one before it. -/
abbrev MatchAt := Int → MatchArg → Int → Int → Int × MatchArg

/-- `onigenc_step_back_se`. -/
def stepBack (start : Int) : Nat → Int → Int
  | 0, s => s
  | n + 1, s =>
      if s = badPos then s
      else if s ≤ start then badPos
      else stepBack start n (leftAdjustCharHead start (s - 1))

/-- `onigenc_single_byte_mbc_enc_len_se`. -/
def singleByteMbcEncLen (_p : Int) : Int := 1

/-- `ONIGENC_IS_MBC_CRNL_SE`. -/
def isMbcCrnl (charAt : Int → UInt8) (p : Int) : Bool :=
  charAt p == 13 && charAt (p + singleByteMbcEncLen p) == 10

namespace ForwardCall

variable (c : ForwardCall)

/-- The text and the regex, as those parts of the backward search see them that
are used here too. -/
def whole : Call where
  charAt := c.charAt
  reg := c.reg.toRegex
  str := c.str
  textEnd := c.textEnd
  start := c.textEnd
  range := c.str
  str_nonneg := c.str_nonneg
  str_le_range := Int.le_refl _
  range_le_start := by
    have := c.str_le_start
    have := c.start_lt_range
    have := c.range_le_textEnd
    omega
  start_le_textEnd := Int.le_refl _
  str_lt_textEnd := by
    have := c.str_le_start
    have := c.start_lt_range
    have := c.range_le_textEnd
    omega
  textEnd_lt := by
    have := c.dmin_fits
    omega

/-! ## Looking for the string or for a byte of the map

`encLen` is the length of the character at a place, `enclen_se`. -/

/-- The string up to the index `t`, compared from the back, `p` being the place of
that index. -/
def sameBytesDown : Nat → Int → Bool
  | 0, p => c.charAt p == c.reg.exact 0
  | t + 1, p => c.charAt p == c.reg.exact (t + 1) && sameBytesDown t (p - 1)

/-- What the searches return for what their loops find. -/
def placeOf (r : Option Int) : Int := r.getD badPos

/-- `slow_search_se`. -/
def slowSearch (encLen : Int → Int) (text textRange : Int) (fuel : Nat) : Option Int :=
  let last := c.textEnd - (c.reg.exactLen - 1)
  let last := if textRange < last then textRange else last
  (scanUp c.whole.exactAt (fun _ s => some (some (s + encLen s))) last fuel text).map placeOf

/-- `slow_search_ic_se`. -/
def slowSearchIC (encLen : Int → Int) (text textRange : Int) (fuel : Nat) : Option Int :=
  let last := c.textEnd - (c.reg.exactLen - 1)
  let last := if textRange < last then textRange else last
  (scanUp (c.whole.strLowerCaseMatch 0) (fun _ s => some (some (s + encLen s))) last fuel
    text).map placeOf

/-- The loop of `bm_search_se` and `bm_search_ic_se`; `s` is the place of the last
byte of the string. -/
def bmScan (test : Int → Bool) (text textRange : Int) (fuel : Nat) : Option Int :=
  let tlen1 : Int := c.reg.exactLen - 1
  let last := textRange + tlen1
  let last := if c.textEnd < last then c.textEnd else last
  let next := fun _ s =>
    some (if last ≤ s + 1 then none else some (s + c.reg.skip (c.charAt (s + 1))))
  (scanUp test next last fuel (text + tlen1)).map fun r => placeOf (r.map (· - tlen1))

/-- `bm_search_se`. -/
def bmSearch : Int → Int → Nat → Option Int :=
  c.bmScan (c.sameBytesDown (c.reg.exactLen - 1))

/-- `bm_search_ic_se`. -/
def bmSearchIC : Int → Int → Nat → Option Int :=
  c.bmScan fun s => c.whole.strLowerCaseMatch 0 (s - (c.reg.exactLen - 1))

/-- The do-while loop of the multibyte searches, from `p` over characters. -/
def stepOver (encLen : Int → Int) (skip last p : Int) : Nat → Int → Option Int :=
  loop fun _ s =>
    let s := s + encLen s
    some (if s - p < skip ∧ s < last then .inl s else .inr s)

/-- The loop of `bm_search_notrev_se` and `bm_search_notrev_ic_se`; `s` is the place
of the first byte of the string. -/
def bmScanNotRev (encLen : Int → Int) (test : Int → Bool) (text textRange : Int) (fuel : Nat) :
    Option Int :=
  let tlen1 : Int := c.reg.exactLen - 1
  let last := if c.textEnd < textRange + tlen1 then c.textEnd - tlen1 else textRange
  let next := fun fuel s =>
    let se := s + tlen1
    if last ≤ s + 1 then some none
    else (stepOver encLen (c.reg.skip (c.charAt (se + 1))) last s fuel s).map some
  (scanUp test next last fuel text).map placeOf

/-- `bm_search_notrev_se`. -/
def bmSearchNotRev (encLen : Int → Int) : Int → Int → Nat → Option Int :=
  c.bmScanNotRev encLen fun s => c.sameBytesDown (c.reg.exactLen - 1) (s + (c.reg.exactLen - 1))

/-- `bm_search_notrev_ic_se`. -/
def bmSearchNotRevIC (encLen : Int → Int) : Int → Int → Nat → Option Int :=
  c.bmScanNotRev encLen (c.whole.strLowerCaseMatch 0)

/-- `map_search_se`. -/
def mapSearch (encLen : Int → Int) (text textRange : Int) (fuel : Nat) : Option Int :=
  (scanUp (fun s => c.reg.map (c.charAt s) != 0) (fun _ s => some (some (s + encLen s))) textRange
    fuel text).map placeOf

/-- The `switch` on `reg->optimize` of `forward_search_range`. -/
def searchForward (encLen : Int → Int) (p range : Int) (fuel : Nat) : Option Int :=
  match c.reg.optimize with
  | .none => some p
  | .exact => c.slowSearch encLen p range fuel
  | .exactIC => c.slowSearchIC encLen p range fuel
  | .exactBM => c.bmSearch p range fuel
  | .exactBMNotRev => c.bmSearchNotRev encLen p range fuel
  | .exactBMIC => c.bmSearchIC p range fuel
  | .exactBMNotRevIC => c.bmSearchNotRevIC encLen p range fuel
  | .map => c.mapSearch encLen p range fuel

/-! ## `forward_search_range` -/

/-- The place found, and the one that was given up before it. -/
structure Place where
  p : Int
  pprev : Int
  deriving DecidableEq, Repr

/-- `*high`. -/
def high (pl : Place) : Int := pl.p - c.reg.dmin.toNat

/-! ## The anchors -/

/-- The values of `start` and `range` behind the anchors. -/
structure Window (c : ForwardCall) where
  start : Int
  range : Int
  str_le_start : c.str ≤ start
  start_le_range : start ≤ range
  range_le_textEnd : range ≤ c.textEnd

/-- The range of the call. -/
def fullWindow : Window c where
  start := c.start
  range := c.range
  str_le_start := c.str_le_start
  start_le_range := Int.le_of_lt c.start_lt_range
  range_le_textEnd := c.range_le_textEnd

/-- `begin_position`. -/
def beginPosition : Window c where
  start := c.start
  range := c.start + 1
  str_le_start := c.str_le_start
  start_le_range := by omega
  range_le_textEnd := by
    have := c.start_lt_range
    have := c.range_le_textEnd
    omega

/-- `start` behind `end_buf`. -/
def endBufStart (minSemiEnd : Int) : Int :=
  if c.reg.anchorDmax.toNat < minSemiEnd - c.start then
    let start := minSemiEnd - c.reg.anchorDmax.toNat
    if start < c.textEnd then rightAdjustCharHead c.str start else start
  else c.start

/-- `range` behind `end_buf`. -/
def endBufRange (maxSemiEnd : Int) : Int :=
  if maxSemiEnd - (c.range - 1) < c.reg.anchorDmin.toNat then
    maxSemiEnd - c.reg.anchorDmin.toNat + 1
  else c.range

theorem str_le_endBufStart (minSemiEnd : Int) : c.str ≤ c.endBufStart minSemiEnd := by
  have low := c.str_le_start
  unfold endBufStart rightAdjustCharHead leftAdjustCharHead
  dsimp only
  split
  · split
    · split <;> omega
    · omega
  · omega

theorem endBufRange_le_textEnd (maxSemiEnd : Int) : c.endBufRange maxSemiEnd ≤ c.textEnd := by
  have high := c.range_le_textEnd
  unfold endBufRange
  split <;> omega

/-- `end_buf`, with the differences as they are when neither end lies before `start`. -/
def endBuf (minSemiEnd maxSemiEnd : Int) : Option (Window c) :=
  if maxSemiEnd - c.str < c.reg.anchorDmin.toNat then none
  else if inOrder : c.endBufStart minSemiEnd ≤ c.endBufRange maxSemiEnd then
    some {
      start := c.endBufStart minSemiEnd
      range := c.endBufRange maxSemiEnd
      str_le_start := c.str_le_endBufStart minSemiEnd
      start_le_range := inOrder
      range_le_textEnd := c.endBufRange_le_textEnd maxSemiEnd }
  else none

/-- `ANCHOR_BEGIN_BUF`. -/
def beginBuf : Option (Window c) :=
  if c.start ≠ c.str then none else some c.beginPosition

/-- `min_semi_end` for a newline at `newline`: `USE_CRNL_AS_LINE_TERMINATOR` is set, and
the CR of a CR LF may go with it. -/
def minSemiEnd (newline : Int) : Int :=
  let preEnd := stepBack c.str 1 newline
  if preEnd ≠ badPos ∧ c.reg.newlineCRLF ∧ isMbcCrnl c.charAt preEnd then preEnd else newline

/-- `ANCHOR_SEMI_END_BUF`. -/
def semiEndBuf : Option (Window c) :=
  let preEnd := stepBack c.str 1 c.textEnd
  if isMbcNewline c.charAt preEnd c.textEnd then
    let minSemiEnd := c.minSemiEnd preEnd
    if c.str < minSemiEnd ∧ c.start ≤ minSemiEnd then c.endBuf minSemiEnd c.textEnd
    else some c.fullWindow
  else c.endBuf c.textEnd c.textEnd

variable (matchAt : MatchAt)

/-- The variables of the loops. -/
structure State where
  s : Int
  prev : Int
  msa : MatchArg
  deriving DecidableEq, Repr

/-- From `mismatch` on. -/
def mismatch (msa : MatchArg) : Call.Outcome :=
  if c.reg.findLongest ∧ 0 ≤ msa.bestLen then .matched msa.bestS else .mismatch

/-- `MATCH_AND_RETURN_CHECK`: where the search goes, or `msa` when it goes on. -/
def matchAndReturnCheck (gpos : Int) (st : State) : Call.Outcome ⊕ MatchArg :=
  let r := matchAt gpos st.msa st.s st.prev
  if r.1 ≠ onigMismatch then
    if 0 ≤ r.1 then
      if !c.reg.findLongest then .inl (.matched st.s) else .inr r.2
    else .inl (.finished r.1)
  else .inr r.2

/-- `prev = s`, and `s` moves on by one character. -/
def State.advance (st : State) (msa : MatchArg) : State := { s := st.s + 1, prev := st.s, msa }

end ForwardCall

end WindTerm.Onigmo
