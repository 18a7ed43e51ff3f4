import VrxServer.WebSocket.Handshake
import Mathlib.Data.List.DropRight

/-! The header search.

`findHeaderValue` goes through the text it is given line by line, and takes the value of the
first line that begins with the header's name and a colon. It does not stop at the empty
line that ends the header: of a text with more behind it, the lines there are searched too
(`headerField_append`). -/
namespace VrxServer.WebSocket
open Base

def crlf : List UInt8 := [0x0D, 0x0A]

/-- `std::string::find`, from `pos` on. -/
def findFrom (needle bytes : List UInt8) (pos : ℕ) : Option ℕ := (find needle (bytes.drop pos)).map (pos + ·)

/-- `std::string::substr`, which throws where it would start behind the end. -/
def substr (bytes : List UInt8) (pos n : ℕ) : Option (List UInt8) :=
  if pos ≤ bytes.length then some ((bytes.drop pos).take n) else none

def tolower (c : UInt8) : UInt8 := if 0x41 ≤ c ∧ c ≤ 0x5A then c + 0x20 else c

/-- The two loops that take blanks off a value. -/
def trim (value : List UInt8) : List UInt8 :=
  (value.dropWhile fun c => c = 0x20 ∨ c = 0x09).rdropWhile fun c => c = 0x20 ∨ c = 0x09 ∨ c = 0x0D

/-- What a line makes `findHeaderValue` return, if anything. -/
def lineValue (headerName line : List UInt8) : Option (Option (List UInt8)) :=
  match find [0x3A] line with
  | none => some none
  | some colon => do
    let key ← substr line 0 colon
    if key.map tolower = headerName.map tolower then
      let value ← substr line (colon + 1) line.length
      return some (trim value)
    else return none

/-- The loop of `findHeaderValue`, from `pos` on. -/
def findHeaderFrom (response headerName : List UInt8) (pos : ℕ) : Option (List UInt8) :=
  if _hpos : pos < response.length then
    match _hend : findFrom crlf response pos with
    | none => do
      let line ← substr response pos response.length
      let value ← lineValue headerName line
      return value.getD []
    | some lineEnd => do
      let line ← substr response pos (lineEnd - pos)
      match ← lineValue headerName line with
      | some value => return value
      | none => findHeaderFrom response headerName (lineEnd + 2)
  else some []
termination_by response.length - pos
decreasing_by
  obtain ⟨i, -, rfl⟩ := Option.map_eq_some_iff.mp _hend
  omega

def findHeaderValue (response headerName : List UInt8) : Option (List UInt8) := findHeaderFrom response headerName 0

/-! ### Searching -/

theorem prefix_of_find {needle bytes : List UInt8} {i : ℕ} (h : find needle bytes = some i) : needle <+: bytes.drop i := by
  induction bytes generalizing i with
  | nil =>
    simp only [find, List.isEmpty_iff] at h
    split at h
    · next hempty =>
      rw [hempty]
      exact List.nil_prefix
    · cases h
  | cons b bytes ih =>
    rw [find] at h
    split at h
    · next hstart =>
      cases h
      rwa [List.isPrefixOf_iff_prefix] at hstart
    · obtain ⟨j, hj, rfl⟩ := Option.map_eq_some_iff.mp h
      exact ih hj

theorem find_of_prefix {needle bytes : List UInt8} {i : ℕ} (hi : i ≤ bytes.length) (h : needle <+: bytes.drop i) :
    find needle bytes ≠ none := by
  induction bytes generalizing i with
  | nil =>
    rw [List.drop_nil, List.prefix_nil] at h
    rw [h]
    exact Option.some_ne_none 0
  | cons b bytes ih =>
    rw [find]
    split
    · exact Option.some_ne_none 0
    · next hstart =>
      rw [List.isPrefixOf_iff_prefix] at hstart
      cases i with
      | zero => exact absurd h hstart
      | succ i =>
        rw [ne_eq, Option.map_eq_none_iff]
        exact ih (Nat.le_of_succ_le_succ hi) h

theorem find_singleton_append (b : UInt8) (front rest : List UInt8) :
    find [b] (front ++ rest) = (find [b] front).or ((find [b] rest).map (front.length + ·)) := by
  induction front with
  | nil =>
    simp only [List.nil_append, List.length_nil, Nat.zero_add, Option.map_id']
    rfl
  | cons c front ih =>
    have hstart : ∀ bytes, ([b].isPrefixOf (c :: bytes)) = (b == c) := fun bytes => Bool.and_true _
    rw [List.cons_append, find, find, ih, hstart, hstart]
    cases b == c with
    | true => rfl
    | false =>
      cases find [b] front with
      | some i => rfl
      | none =>
        cases find [b] rest with
        | none => rfl
        | some j =>
          show some (front.length + j + 1) = some (front.length + 1 + j)
          rw [Nat.add_right_comm]

/-! ### Lines -/

/-- The lines of a text, without the CRLF behind each. -/
def lines : List UInt8 → List (List UInt8)
  | [] => []
  | 0x0D :: 0x0A :: bytes => [] :: lines bytes
  | b :: bytes => (b :: (lines bytes).headD []) :: (lines bytes).tail

/-- A byte that begins no line end belongs to the line behind it. -/
theorem lines_cons {b : UInt8} {bytes : List UInt8} (h : ¬ crlf <+: b :: bytes) :
    lines (b :: bytes) = (b :: (lines bytes).headD []) :: (lines bytes).tail := by
  refine lines.eq_3 _ _ ?_
  intro rest hb hbytes
  rw [hb, hbytes] at h
  exact h (List.prefix_append crlf rest)

theorem lines_ne_nil {bytes : List UInt8} (h : bytes ≠ []) : lines bytes ≠ [] := by
  cases bytes using lines.fun_cases_unfolding with
  | case1 => exact absurd rfl h
  | case2 | case3 => exact List.cons_ne_nil _ _

/-- **A line end separates the lines before it from those behind.** -/
theorem lines_append (front rest : List UInt8) : lines (front ++ crlf ++ rest) = lines (front ++ crlf) ++ lines rest := by
  induction front using lines.induct with
  | case1 => rfl
  | case2 bytes ih => exact congrArg (List.cons []) ih
  | case3 b bytes hb ih =>
    have hstart : ∀ behind, ¬ crlf <+: b :: (bytes ++ crlf ++ behind) := by
      intro behind hp
      obtain ⟨t, ht⟩ := hp
      cases bytes with
      | nil => cases ht
      | cons c bytes =>
        cases ht
        exact hb _ rfl rfl
    have hbefore := hstart []
    rw [List.append_nil] at hbefore
    have hne : bytes ++ crlf ≠ [] := List.append_ne_nil_of_right_ne_nil _ (List.cons_ne_nil _ _)
    obtain ⟨line, ls, hls⟩ := List.exists_cons_of_ne_nil (lines_ne_nil hne)
    rw [hls] at ih
    rw [List.cons_append, List.cons_append, lines_cons (hstart rest), lines_cons hbefore, ih, hls]
    rfl

/-- The lines are what the loop's searches cut off. -/
theorem lines_eq {bytes : List UInt8} (h : bytes ≠ []) :
    lines bytes = match find crlf bytes with
      | none => [bytes]
      | some i => bytes.take i :: lines (bytes.drop (i + 2)) := by
  induction bytes with
  | nil => exact absurd rfl h
  | cons b bytes ih =>
    by_cases hstart : crlf <+: b :: bytes
    · obtain ⟨rest, hrest⟩ := hstart
      cases hrest
      rfl
    · have hfind : find crlf (b :: bytes) = (find crlf bytes).map (· + 1) := by
        rw [find, if_neg (by rwa [List.isPrefixOf_iff_prefix])]
      rw [lines_cons hstart, hfind]
      rcases eq_or_ne bytes [] with hnil | hne
      · rw [hnil]
        rfl
      · rw [ih hne]
        cases find crlf bytes with
        | none => rfl
        | some i => rfl

/-! ### The search -/

/-- The value a line gives the header, if the line is that header's. -/
def fieldValue (headerName line : List UInt8) : Option (List UInt8) :=
  (find [0x3A] line).bind fun colon =>
    if (line.take colon).map tolower = headerName.map tolower then some (trim (line.drop (colon + 1))) else none

/-- The value the first line of the header's gives it. -/
def headerField (headerName text : List UInt8) : Option (List UInt8) := (lines text).findSome? (fieldValue headerName)

/-- No position in a line is behind its end. -/
theorem lineValue_eq (headerName line : List UInt8) : lineValue headerName line = some (fieldValue headerName line) := by
  unfold lineValue fieldValue
  cases hcolon : find [0x3A] line with
  | none => rfl
  | some colon =>
    have hle := find_le hcolon
    rw [List.length_singleton] at hle
    have hvalue : (line.drop (colon + 1)).take line.length = line.drop (colon + 1) :=
      List.take_of_length_le (by rw [List.length_drop]; omega)
    simp only [substr, Nat.zero_le, if_true, List.drop_zero, hle, hvalue, Option.bind_some, Option.bind_eq_bind]
    split <;> rfl

theorem findHeaderFrom_eq (response headerName : List UInt8) (pos : ℕ) :
    findHeaderFrom response headerName pos = some ((headerField headerName (response.drop pos)).getD []) := by
  induction pos using findHeaderFrom.induct response with
  | case1 pos hpos hend =>
    have hne : response.drop pos ≠ [] := List.drop_eq_nil_iff.not.mpr (by omega)
    have hline : (response.drop pos).take response.length = response.drop pos :=
      List.take_of_length_le (by rw [List.length_drop]; omega)
    have hlines := lines_eq hne
    rw [Option.map_eq_none_iff.mp hend] at hlines
    rw [findHeaderFrom, dif_pos hpos, headerField, hlines]
    split
    · simp only [substr, hpos.le, if_true, hline, Option.bind_eq_bind, Option.bind_some, lineValue_eq,
        List.findSome?_cons, List.findSome?_nil]
      cases fieldValue headerName (response.drop pos) <;> rfl
    · next hend' => rw [hend] at hend'; cases hend'
  | case2 pos hpos lineEnd hend ih =>
    obtain ⟨i, hi, rfl⟩ := Option.map_eq_some_iff.mp hend
    have hne : response.drop pos ≠ [] := List.drop_eq_nil_iff.not.mpr (by omega)
    have hlines := lines_eq hne
    rw [hi] at hlines
    rw [findHeaderFrom, dif_pos hpos, headerField, hlines]
    split
    · next hend' => rw [hend] at hend'; cases hend'
    · next lineEnd hend' =>
      rw [hend] at hend'
      cases hend'
      simp only [substr, hpos.le, if_true, Nat.add_sub_cancel_left, Option.bind_eq_bind, Option.bind_some, lineValue_eq,
        List.findSome?_cons]
      cases fieldValue headerName ((response.drop pos).take i) with
      | some value => rfl
      | none =>
        show findHeaderFrom response headerName (pos + i + 2) = _
        rw [ih, headerField, List.drop_drop, Nat.add_assoc]
  | case3 pos hpos =>
    rw [findHeaderFrom, dif_neg hpos, List.drop_eq_nil_of_le (by omega)]
    rfl

/-- **`findHeaderValue` returns what the first line of the header's gives it**, and nothing if
there is none. -/
theorem findHeaderValue_eq (response headerName : List UInt8) :
    findHeaderValue response headerName = some ((headerField headerName response).getD []) :=
  findHeaderFrom_eq response headerName 0

/-- **Behind a text that has the header nothing matters; behind one that has not, the header
is looked for.** -/
theorem headerField_append (headerName front rest : List UInt8) :
    headerField headerName (front ++ crlf ++ rest) =
      (headerField headerName (front ++ crlf)).or (headerField headerName rest) := by
  rw [headerField, lines_append, List.findSome?_append, headerField, headerField]

end VrxServer.WebSocket
