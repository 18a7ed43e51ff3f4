import VrxServer.WebSocket.Base64
import VrxServer.WebSocket.Headers

/-! The header search on a response as the standard has it.

A response is a status line and fields, each a name, a colon and a value with blanks around
it. On such a text the search finds the value of the first field of that name, without the
blanks (`findHeaderValue_first`); the two loops that trim it also take a CR off its end,
which no value has. -/
namespace VrxServer.WebSocket
open Base

/-- `std::isblank`. -/
def blank (c : UInt8) : Bool := c == 0x20 || c == 0x09

/-- A value without the blanks around it. -/
def strip (value : List UInt8) : List UInt8 := (value.dropWhile blank).rdropWhile blank

/-- The same letter, in whatever case, or the same byte. -/
def sameLetter (c d : UInt8) : Bool :=
  c == d || (0x41 ≤ c && c ≤ 0x5A && d == c + 0x20) || (0x41 ≤ d && d ≤ 0x5A && c == d + 0x20)

/-- Two names are the same, the case of ASCII letters aside. -/
def sameName : List UInt8 → List UInt8 → Bool
  | [], [] => true
  | c :: a, d :: b => sameLetter c d && sameName a b
  | _, _ => false

/-- A header field. -/
structure Field where
  name : List UInt8
  before : List UInt8
  value : List UInt8
  after : List UInt8
  name_plain : ∀ c ∈ name, c ≠ 0x3A ∧ c ≠ 0x0D ∧ c ≠ 0x0A
  before_blank : ∀ c ∈ before, blank c
  value_plain : ∀ c ∈ value, c ≠ 0x0D ∧ c ≠ 0x0A
  after_blank : ∀ c ∈ after, blank c

namespace Field
variable (f : Field)

/-- What is behind the colon. -/
def content : List UInt8 := f.before ++ f.value ++ f.after

def line : List UInt8 := f.name ++ 0x3A :: f.content

theorem content_plain : ∀ c ∈ f.content, c ≠ 0x0D ∧ c ≠ 0x0A := by
  have hblank : ∀ c, blank c → c ≠ 0x0D ∧ c ≠ 0x0A := by
    intro c hc
    simp only [blank, Bool.or_eq_true, beq_iff_eq] at hc
    rcases hc with rfl | rfl <;> decide
  intro c hc
  simp only [content, List.mem_append] at hc
  rcases hc with (hbefore | hvalue) | hafter
  · exact hblank c (f.before_blank c hbefore)
  · exact f.value_plain c hvalue
  · exact hblank c (f.after_blank c hafter)

theorem line_plain : ∀ c ∈ f.line, c ≠ 0x0D ∧ c ≠ 0x0A := by
  intro c hc
  simp only [line, List.mem_append, List.mem_cons] at hc
  rcases hc with hname | rfl | hcontent
  · exact (f.name_plain c hname).2
  · decide
  · exact f.content_plain c hcontent

end Field

/-- The status line and the fields, joined by CRLF, and the empty line behind them. -/
def responseText (status : List UInt8) (fields : List Field) : List UInt8 :=
  crlf.intercalate (status :: fields.map Field.line) ++ crlf ++ crlf

/-! ### Names -/

theorem sameLetter_iff (c d : UInt8) : sameLetter c d ↔ tolower c = tolower d := by
  have hc := c.toNat_lt
  have hd := d.toNat_lt
  simp only [sameLetter, tolower, Bool.or_eq_true, Bool.and_eq_true, beq_iff_eq, decide_eq_true_eq,
    UInt8.le_iff_toNat_le, ← UInt8.toNat_inj, apply_ite UInt8.toNat, UInt8.toNat_add, UInt8.reduceToNat]
  split_ifs <;> omega

theorem sameName_iff (a b : List UInt8) : sameName a b ↔ a.map tolower = b.map tolower := by
  induction a, b using sameName.induct with
  | case1 => exact iff_of_true rfl rfl
  | case2 c a d b ih =>
    rw [sameName, Bool.and_eq_true, sameLetter_iff, ih, List.map_cons, List.map_cons, List.cons.injEq]
  | case3 a b hnil hcons =>
    cases a with
    | nil =>
      cases b with
      | nil => exact absurd rfl (hnil rfl)
      | cons d b => exact iff_of_false (by simp [sameName]) (by simp)
    | cons c a =>
      cases b with
      | nil => exact iff_of_false (by simp [sameName]) (by simp)
      | cons d b => exact absurd rfl (hcons c a d b rfl)

/-! ### Trimming -/

theorem dropWhile_congr {p q : UInt8 → Bool} {value : List UInt8} (h : ∀ c ∈ value, p c = q c) :
    value.dropWhile p = value.dropWhile q := by
  induction value with
  | nil => rfl
  | cons c value ih =>
    rw [List.dropWhile_cons, List.dropWhile_cons, h c (List.mem_cons_self ..),
      ih fun d hd => h d (List.mem_cons_of_mem c hd)]

theorem rdropWhile_append_blank {p : UInt8 → Bool} (front : List UInt8) {back : List UInt8} (h : ∀ c ∈ back, p c) :
    (front ++ back).rdropWhile p = front.rdropWhile p := by
  rw [List.rdropWhile, List.reverse_append, List.dropWhile_append_of_pos (by simpa using h), ← List.rdropWhile]

theorem strip_content (f : Field) : strip f.content = strip f.value := by
  rw [strip, strip, Field.content, List.append_assoc, List.dropWhile_append_of_pos f.before_blank,
    List.dropWhile_append]
  split
  · next hempty =>
    rw [List.isEmpty_iff.mp hempty, List.dropWhile_eq_nil_iff.mpr f.after_blank]
  · exact rdropWhile_append_blank _ f.after_blank

/-- Without a CR the loops trim blanks only. -/
theorem trim_eq_strip {value : List UInt8} (h : ∀ c ∈ value, c ≠ 0x0D) : trim value = strip value := by
  have hfront : (value.dropWhile fun c => c = 0x20 ∨ c = 0x09) = value.dropWhile blank :=
    dropWhile_congr fun c _ => by rw [Bool.eq_iff_iff]; simp [blank]
  rw [trim, strip, hfront, List.rdropWhile, List.rdropWhile]
  congr 1
  apply dropWhile_congr
  intro c hc
  have hplain := h c ((List.dropWhile_sublist blank).subset (List.mem_reverse.mp hc))
  rw [Bool.eq_iff_iff]
  simp [blank, hplain]

/-! ### Lines -/

/-- A byte of a line is one of the text. -/
theorem mem_of_mem_lines {text line : List UInt8} {c : UInt8} (hline : line ∈ lines text) (hc : c ∈ line) : c ∈ text := by
  induction text using lines.induct generalizing line c with
  | case1 => cases hline
  | case2 bytes ih =>
    simp only [lines, List.mem_cons] at hline
    rcases hline with rfl | hline
    · cases hc
    · exact List.mem_cons_of_mem _ (List.mem_cons_of_mem _ (ih hline hc))
  | case3 b bytes hb ih =>
    rw [lines.eq_3 _ _ hb, List.mem_cons] at hline
    rcases hline with rfl | hline
    · rcases List.mem_cons.mp hc with rfl | hc
      · exact List.mem_cons_self ..
      · cases hlines : lines bytes with
        | nil =>
          rw [hlines] at hc
          cases hc
        | cons first rest =>
          rw [hlines] at hc
          have hfirst : first ∈ lines bytes := by
            rw [hlines]
            exact List.mem_cons_self ..
          exact List.mem_cons_of_mem _ (ih hfirst hc)
    · exact List.mem_cons_of_mem _ (ih (List.mem_of_mem_tail hline) hc)

/-- A line with no CR in it is one line. -/
theorem lines_line {line : List UInt8} (h : ∀ c ∈ line, c ≠ 0x0D) : lines (line ++ crlf) = [line] := by
  induction line with
  | nil => rfl
  | cons c line ih =>
    have hstart : ¬ crlf <+: c :: (line ++ crlf) := by
      intro hp
      exact h c (List.mem_cons_self ..) (List.cons_prefix_cons.mp hp).1.symm
    rw [List.cons_append, lines_cons hstart, ih fun d hd => h d (List.mem_cons_of_mem c hd)]
    rfl

/-- The lines of a response: those of its status line, its fields, and the empty one. -/
theorem lines_responseText (status : List UInt8) (fields : List Field) :
    lines (responseText status fields) = lines (status ++ crlf) ++ fields.map Field.line ++ [[]] := by
  induction fields generalizing status with
  | nil =>
    rw [responseText, List.map_nil, List.intercalate_singleton, List.append_nil]
    exact lines_append status crlf
  | cons f fields ih =>
    have hsplit : responseText status (f :: fields) = status ++ crlf ++ responseText f.line fields := by
      simp only [responseText, List.map_cons, List.intercalate_cons_cons, List.append_assoc]
    rw [hsplit, lines_append, ih, lines_line fun c hc => (f.line_plain c hc).1, List.map_cons]
    simp only [List.append_assoc, List.cons_append, List.nil_append]

/-! ### The search -/

theorem find_singleton_none {c : UInt8} {bytes : List UInt8} (h : c ∉ bytes) : find [c] bytes = none := by
  induction bytes with
  | nil => rfl
  | cons b bytes ih =>
    have hstart : ¬ ([c].isPrefixOf (b :: bytes)) = true := by
      rw [List.isPrefixOf_iff_prefix, List.cons_prefix_cons]
      intro hp
      exact h (hp.1 ▸ List.mem_cons_self ..)
    rw [find, if_neg hstart, ih (fun hin => h (List.mem_cons_of_mem b hin))]
    rfl

/-- A line without a colon is no header's. -/
theorem fieldValue_none {headerName line : List UInt8} (h : 0x3A ∉ line) : fieldValue headerName line = none := by
  rw [fieldValue, find_singleton_none h]
  rfl

/-- A field's line gives the header of its name the value without blanks. -/
theorem fieldValue_line (headerName : List UInt8) (f : Field) :
    fieldValue headerName f.line = if sameName f.name headerName then some (strip f.value) else none := by
  have hcolon : find [0x3A] f.line = some f.name.length := by
    rw [Field.line, find_singleton_append, find_singleton_none fun h => (f.name_plain _ h).1 rfl]
    rfl
  have hname : f.line.take f.name.length = f.name := List.take_left
  have hcontent : f.line.drop (f.name.length + 1) = f.content := by
    rw [← List.drop_drop, Field.line, List.drop_left]
    rfl
  rw [fieldValue, hcolon, Option.bind_some, hname, hcontent, trim_eq_strip fun c hc => (f.content_plain c hc).1,
    strip_content]
  simp only [sameName_iff]

/-- **The search finds the first field of the name**, whatever the case, **and gives its value
without the blanks around it**; and on no text whatever does it look behind the end. -/
theorem findHeaderValue_first (status : List UInt8) (hstatus : 0x3A ∉ status) (fields : List Field)
    (headerName : List UInt8) :
    findHeaderValue (responseText status fields) headerName =
        some (((fields.find? fun f => sameName f.name headerName).map fun f => strip f.value).getD []) ∧
      ∀ text, findHeaderValue text headerName ≠ none := by
  have hnone : (lines (status ++ crlf)).findSome? (fieldValue headerName) = none := by
    apply List.findSome?_eq_none_iff.mpr
    intro line hline
    apply fieldValue_none
    intro hin
    rcases List.mem_append.mp (mem_of_mem_lines hline hin) with hcolon | hcolon
    · exact hstatus hcolon
    · exact absurd hcolon (by decide)
  have hfields : (fields.map Field.line).findSome? (fieldValue headerName) =
      (fields.find? fun f => sameName f.name headerName).map fun f => strip f.value := by
    induction fields with
    | nil => rfl
    | cons f fields ih =>
      rw [List.map_cons, List.findSome?_cons, List.find?_cons, fieldValue_line, ih]
      cases sameName f.name headerName <;> rfl
  constructor
  · rw [findHeaderValue_eq, headerField, lines_responseText, List.findSome?_append, List.findSome?_append, hnone, hfields,
      Option.none_or]
    cases (fields.find? fun f => sameName f.name headerName) <;> rfl
  · intro text
    rw [findHeaderValue_eq]
    exact Option.some_ne_none _

def upgradeField : Field where
  name := ascii "Upgrade"
  before := ascii " "
  value := ascii "websocket"
  after := ascii "\t "
  name_plain := by decide +kernel
  before_blank := by decide +kernel
  value_plain := by decide +kernel
  after_blank := by decide +kernel

/-- A name in capitals finds the field. -/
theorem findHeaderValue_first_upgrade : 0x3A ∉ ascii "HTTP/1.1 101" ∧
    findHeaderValue (responseText (ascii "HTTP/1.1 101") [upgradeField]) (ascii "UPGRADE") = some (ascii "websocket") ∧
      ∀ text, findHeaderValue text (ascii "UPGRADE") ≠ none := by
  have hstatus : 0x3A ∉ ascii "HTTP/1.1 101" := by decide +kernel
  have hvalue : (([upgradeField].find? fun f => sameName f.name (ascii "UPGRADE")).map fun f => strip f.value).getD [] =
      ascii "websocket" := by decide +kernel
  have hfirst := findHeaderValue_first (ascii "HTTP/1.1 101") hstatus [upgradeField] (ascii "UPGRADE")
  rw [hvalue] at hfirst
  exact ⟨hstatus, hfirst⟩

end VrxServer.WebSocket
