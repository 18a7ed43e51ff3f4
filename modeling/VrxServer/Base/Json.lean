import Mathlib.Data.List.Basic
import Mathlib.Data.Char
import Mathlib.Tactic.NormNum

/-! JSON texts (RFC 8259), and objects written without escaping.

The grammar is a relation between a text, what it stands for and what is left of the text
behind it. A string is between two quotation marks, so one written as it is ends at the
first mark that no backslash stands before. Whoever writes an object of strings that way
writes what he means exactly when every string is plain: UTF-8, and nothing in it that the
grammar wants escaped (`emit_iff`). -/
namespace VrxServer.Base.Json

abbrev Bytes := List UInt8

/-- What a text stands for. A number is kept as it is written. -/
inductive Data where
  | null
  | bool (b : Bool)
  | num (text : Bytes)
  | str (s : Bytes)
  | arr (items : List Data)
  | obj (members : List (Bytes × Data))

/-! ### Strings -/

/-- `unescaped`: all but the control characters, the quotation mark and the backslash. -/
def Unescaped (c : Char) : Prop := 0x20 ≤ c.toNat ∧ c ≠ '"' ∧ c ≠ '\\'

instance : DecidablePred Unescaped := fun c => inferInstanceAs (Decidable (0x20 ≤ c.toNat ∧ c ≠ '"' ∧ c ≠ '\\'))

/-- What the two-character escapes stand for. -/
def shortEscape (e : UInt8) : Option UInt8 :=
  if e = 0x22 then some 0x22
  else if e = 0x5C then some 0x5C
  else if e = 0x2F then some 0x2F
  else if e = 0x62 then some 0x08
  else if e = 0x66 then some 0x0C
  else if e = 0x6E then some 0x0A
  else if e = 0x72 then some 0x0D
  else if e = 0x74 then some 0x09
  else none

def hexDigit (c : UInt8) : Option ℕ :=
  if 0x30 ≤ c ∧ c ≤ 0x39 then some (c.toNat - 0x30)
  else if 0x41 ≤ c ∧ c ≤ 0x46 then some (c.toNat - 0x41 + 10)
  else if 0x61 ≤ c ∧ c ≤ 0x66 then some (c.toNat - 0x61 + 10)
  else none

/-- Four hexadecimal digits. -/
def Hex4 (text : Bytes) (n : ℕ) : Prop :=
  ∃ a b c d x y z w, text = [a, b, c, d] ∧ hexDigit a = some x ∧ hexDigit b = some y ∧ hexDigit c = some z ∧
    hexDigit d = some w ∧ n = ((x * 16 + y) * 16 + z) * 16 + w

/-- What is between the quotation marks, and the UTF-8 of the string it stands for. -/
inductive Body : Bytes → Bytes → Prop where
  | nil : Body [] []
  | plain {c : Char} {raw s : Bytes} : Unescaped c → Body raw s →
      Body (String.utf8EncodeChar c ++ raw) (String.utf8EncodeChar c ++ s)
  | short {e b : UInt8} {raw s : Bytes} : shortEscape e = some b → Body raw s → Body (0x5C :: e :: raw) (b :: s)
  | unicode {digits : Bytes} {c : Char} {raw s : Bytes} : Hex4 digits c.toNat → Body raw s →
      Body (0x5C :: 0x75 :: digits ++ raw) (String.utf8EncodeChar c ++ s)
  /-- A character above U+FFFF, as a pair of surrogates. -/
  | pair {high low : Bytes} {h l : ℕ} {c : Char} {raw s : Bytes} : Hex4 high h → Hex4 low l →
      0xD800 ≤ h ∧ h < 0xDC00 → 0xDC00 ≤ l ∧ l < 0xE000 →
      c.toNat = 0x10000 + (h - 0xD800) * 0x400 + (l - 0xDC00) → Body raw s →
      Body (0x5C :: 0x75 :: high ++ 0x5C :: 0x75 :: low ++ raw) (String.utf8EncodeChar c ++ s)

/-- A string between its quotation marks. -/
def quoted (raw rest : Bytes) : Bytes := 0x22 :: (raw ++ 0x22 :: rest)

def IsString (text s rest : Bytes) : Prop := ∃ raw, text = quoted raw rest ∧ Body raw s

/-! ### Numbers -/

def Digits (text : Bytes) : Prop := text ≠ [] ∧ ∀ c ∈ text, 0x30 ≤ c ∧ c ≤ 0x39

def IsInt (text : Bytes) : Prop := text = [0x30] ∨ Digits text ∧ text.head? ≠ some 0x30

def IsFrac (text : Bytes) : Prop := text = [] ∨ ∃ digits, Digits digits ∧ text = 0x2E :: digits

def IsExp (text : Bytes) : Prop :=
  text = [] ∨ ∃ e sign digits, (e = 0x65 ∨ e = 0x45) ∧ (sign = [] ∨ sign = [0x2B] ∨ sign = [0x2D]) ∧
    Digits digits ∧ text = e :: sign ++ digits

def IsNumber (text : Bytes) : Prop :=
  ∃ minus int frac exp, (minus = [] ∨ minus = [0x2D]) ∧ IsInt int ∧ IsFrac frac ∧ IsExp exp ∧
    text = minus ++ int ++ frac ++ exp

/-! ### Texts -/

/-- Space, tab, line feed, carriage return. -/
def isWs (c : UInt8) : Prop := c = 0x20 ∨ c = 0x09 ∨ c = 0x0A ∨ c = 0x0D

instance : DecidablePred isWs := fun c => inferInstanceAs (Decidable (c = 0x20 ∨ c = 0x09 ∨ c = 0x0A ∨ c = 0x0D))

def Ws (text rest : Bytes) : Prop := ∃ blanks, text = blanks ++ rest ∧ ∀ c ∈ blanks, isWs c

/-- A structural character, with white space on both sides. -/
def Token (c : UInt8) (text rest : Bytes) : Prop := ∃ behind, Ws text (c :: behind) ∧ Ws behind rest

mutual

inductive Value : Bytes → Data → Bytes → Prop where
  | null {rest : Bytes} : Value ([0x6E, 0x75, 0x6C, 0x6C] ++ rest) .null rest
  | true {rest : Bytes} : Value ([0x74, 0x72, 0x75, 0x65] ++ rest) (.bool true) rest
  | false {rest : Bytes} : Value ([0x66, 0x61, 0x6C, 0x73, 0x65] ++ rest) (.bool false) rest
  | num {text rest : Bytes} : IsNumber text → Value (text ++ rest) (.num text) rest
  | str {text s rest : Bytes} : IsString text s rest → Value text (.str s) rest
  | emptyArr {text t rest : Bytes} : Token 0x5B text t → Token 0x5D t rest → Value text (.arr []) rest
  | arr {text t u rest : Bytes} {items : List Data} : Token 0x5B text t → Items t items u → Token 0x5D u rest →
      Value text (.arr items) rest
  | emptyObj {text t rest : Bytes} : Token 0x7B text t → Token 0x7D t rest → Value text (.obj []) rest
  | obj {text t u rest : Bytes} {members : List (Bytes × Data)} : Token 0x7B text t → Members t members u →
      Token 0x7D u rest → Value text (.obj members) rest

inductive Items : Bytes → List Data → Bytes → Prop where
  | one {text rest : Bytes} {v : Data} : Value text v rest → Items text [v] rest
  | cons {text t u rest : Bytes} {v : Data} {items : List Data} : Value text v t → Token 0x2C t u →
      Items u items rest → Items text (v :: items) rest

inductive Members : Bytes → List (Bytes × Data) → Bytes → Prop where
  | one {text t u rest k : Bytes} {v : Data} : IsString text k t → Token 0x3A t u → Value u v rest →
      Members text [(k, v)] rest
  | cons {text t u w x rest k : Bytes} {v : Data} {members : List (Bytes × Data)} : IsString text k t →
      Token 0x3A t u → Value u v w → Token 0x2C w x → Members x members rest → Members text ((k, v) :: members) rest

end

/-- `JSON-text`. -/
def Text (text : Bytes) (v : Data) : Prop := ∃ t u, Ws text t ∧ Value t v u ∧ Ws u []

/-! ### Plain strings -/

/-- UTF-8, and nothing in it that has to be escaped. -/
def Plain (s : Bytes) : Prop := ∃ cs : List Char, (∀ c ∈ cs, Unescaped c) ∧ s = cs.flatMap String.utf8EncodeChar

/-- A byte below 128 is in no character but its own. -/
theorem mem_utf8EncodeChar {c : Char} {b : UInt8} (h : b ∈ String.utf8EncodeChar c) (hb : b < 0x80) :
    b.toNat = c.toNat := by
  have hlow := UInt8.lt_iff_toNat_lt.mp hb
  have hnat : (0x80 : UInt8).toNat = 128 := rfl
  rw [hnat] at hlow
  have hc : c.val.toNat = c.toNat := rfl
  have hhigh : ∀ n : ℕ, n < 256 → 128 ≤ n → b ≠ UInt8.ofNat n := by
    intro n hn hge heq
    rw [heq, UInt8.toNat_ofNat'] at hlow
    omega
  rw [String.utf8EncodeChar, hc] at h
  split_ifs at h
  · rw [List.mem_singleton] at h
    rw [h, UInt8.toNat_ofNat']
    omega
  · simp only [List.mem_cons, List.not_mem_nil, or_false] at h
    rcases h with h | h
    · exact absurd h (hhigh _ (by omega) (by omega))
    · exact absurd h (hhigh _ (by omega) (by omega))
  · simp only [List.mem_cons, List.not_mem_nil, or_false] at h
    rcases h with h | h | h
    · exact absurd h (hhigh _ (by omega) (by omega))
    · exact absurd h (hhigh _ (by omega) (by omega))
    · exact absurd h (hhigh _ (by omega) (by omega))
  · simp only [List.mem_cons, List.not_mem_nil, or_false] at h
    rcases h with h | h | h | h
    · exact absurd h (hhigh _ (by omega) (by omega))
    · exact absurd h (hhigh _ (by omega) (by omega))
    · exact absurd h (hhigh _ (by omega) (by omega))
    · exact absurd h (hhigh _ (by omega) (by omega))

theorem quote_not_mem {c : Char} (h : Unescaped c) : 0x22 ∉ String.utf8EncodeChar c := by
  intro hin
  have hc := mem_utf8EncodeChar hin (by decide)
  exact h.2.1 (Char.ext (UInt32.toNat_inj.mp hc.symm))

theorem backslash_not_mem {c : Char} (h : Unescaped c) : 0x5C ∉ String.utf8EncodeChar c := by
  intro hin
  have hc := mem_utf8EncodeChar hin (by decide)
  exact h.2.2 (Char.ext (UInt32.toNat_inj.mp hc.symm))

namespace Plain

theorem nil : Plain [] := ⟨[], fun _ h => absurd h List.not_mem_nil, rfl⟩

theorem cons {c : Char} {s : Bytes} (hc : Unescaped c) (h : Plain s) : Plain (String.utf8EncodeChar c ++ s) := by
  obtain ⟨cs, hcs, rfl⟩ := h
  exact ⟨c :: cs, List.forall_mem_cons.mpr ⟨hc, hcs⟩, rfl⟩

/-- Bytes below 128 that need no escape. -/
theorem of_ascii {s : Bytes} (h : ∀ b ∈ s, 0x20 ≤ b ∧ b < 0x80 ∧ b ≠ 0x22 ∧ b ≠ 0x5C) : Plain s := by
  induction s with
  | nil => exact nil
  | cons b s ih =>
    obtain ⟨⟨hlow, hhigh, hquote, hbackslash⟩, hs⟩ := List.forall_mem_cons.mp h
    rw [UInt8.le_iff_toNat_le] at hlow
    rw [UInt8.lt_iff_toNat_lt] at hhigh
    simp only [UInt8.reduceToNat] at hlow hhigh
    have hnat : (Char.ofNat b.toNat).toNat = b.toNat := by
      rw [Char.ofNat, dif_pos (.inl (by omega))]
      exact UInt32.toNat_ofNatLT ..
    have hencoded : String.utf8EncodeChar (Char.ofNat b.toNat) = [b] := by
      have hval : (Char.ofNat b.toNat).val.toNat = b.toNat := hnat
      rw [String.utf8EncodeChar, hval, if_pos (by omega), UInt8.ofNat_toNat]
    have hunescaped : Unescaped (Char.ofNat b.toNat) := by
      refine ⟨by rw [hnat]; exact hlow, ?_, ?_⟩
      · intro heq
        rw [heq] at hnat
        exact hquote (UInt8.toNat_inj.mp hnat.symm)
      · intro heq
        rw [heq] at hnat
        exact hbackslash (UInt8.toNat_inj.mp hnat.symm)
    have hcons := cons hunescaped (ih hs)
    rwa [hencoded, List.singleton_append] at hcons

/-- A byte that is in no unescaped character is in no plain string. -/
theorem not_mem {b : UInt8} {s : Bytes} (h : Plain s) (hb : ∀ c, Unescaped c → b ∉ String.utf8EncodeChar c) :
    b ∉ s := by
  obtain ⟨cs, hcs, rfl⟩ := h
  intro hin
  obtain ⟨c, hc, hin⟩ := List.mem_flatMap.mp hin
  exact hb c (hcs c hc) hin

theorem quote_not_mem {s : Bytes} (h : Plain s) : 0x22 ∉ s := h.not_mem fun _ => Json.quote_not_mem

theorem backslash_not_mem {s : Bytes} (h : Plain s) : 0x5C ∉ s := h.not_mem fun _ => Json.backslash_not_mem

/-- A plain string can be written as it is. -/
theorem body {s : Bytes} (h : Plain s) : Body s s := by
  obtain ⟨cs, hcs, rfl⟩ := h
  induction cs with
  | nil => exact .nil
  | cons c cs ih =>
    obtain ⟨hc, hcs⟩ := List.forall_mem_cons.mp hcs
    exact .plain hc (ih hcs)

end Plain

/-! ### Where a string ends -/

theorem length_hex4 {text : Bytes} {n : ℕ} (h : Hex4 text n) : text.length = 4 := by
  obtain ⟨a, b, c, d, x, y, z, w, rfl, -⟩ := h
  rfl

theorem quote_not_mem_hex4 {text : Bytes} {n : ℕ} (h : Hex4 text n) : 0x22 ∉ text := by
  obtain ⟨a, b, c, d, x, y, z, w, rfl, ha, hb, hc, hd, -⟩ := h
  have hquote : hexDigit 0x22 = none := by decide
  intro hin
  simp only [List.mem_cons, List.not_mem_nil, or_false] at hin
  rcases hin with rfl | rfl | rfl | rfl
  · rw [hquote] at ha; cases ha
  · rw [hquote] at hb; cases hb
  · rw [hquote] at hc; cases hc
  · rw [hquote] at hd; cases hd

/-- There is no quotation mark in an escape by number. -/
theorem quote_not_mem_unicode {text : Bytes} {n : ℕ} (h : Hex4 text n) : 0x22 ∉ 0x5C :: 0x75 :: text := by
  simp [quote_not_mem_hex4 h]

theorem length_utf8EncodeChar_le (c : Char) : (String.utf8EncodeChar c).length ≤ 4 := by
  rw [String.length_utf8EncodeChar]
  exact c.utf8Size_le_four

/-- An escape is longer than what it stands for, so a string as long as what it stands for
has none. -/
theorem Body.length {raw s : Bytes} (h : Body raw s) :
    s.length ≤ raw.length ∧ (raw.length = s.length → raw = s ∧ Plain s) := by
  induction h with
  | nil => exact ⟨le_rfl, fun _ => ⟨rfl, .nil⟩⟩
  | @plain c raw s hc _ ih =>
    rw [List.length_append, List.length_append]
    refine ⟨Nat.add_le_add_left ih.1 _, fun heq => ?_⟩
    obtain ⟨hraw, hplain⟩ := ih.2 (Nat.add_left_cancel heq)
    exact ⟨by rw [hraw], hplain.cons hc⟩
  | @short e b raw s _ _ ih =>
    rw [List.length_cons, List.length_cons, List.length_cons]
    exact ⟨by omega, fun heq => by omega⟩
  | @unicode digits c raw s hdigits _ ih =>
    have hc := length_utf8EncodeChar_le c
    rw [List.length_append, List.length_append, List.length_cons, List.length_cons, length_hex4 hdigits]
    exact ⟨by omega, fun heq => by omega⟩
  | @pair high low h l c raw s hhigh hlow _ _ _ _ ih =>
    have hc := length_utf8EncodeChar_le c
    simp only [List.length_append, List.length_cons, length_hex4 hhigh, length_hex4 hlow]
    exact ⟨by omega, fun heq => by omega⟩

/-- A mark that is not in the front of a text is behind it. -/
theorem split_quote {front raw a b : Bytes} (hfront : 0x22 ∉ front) (h : front ++ raw = a ++ 0x22 :: b) :
    ∃ a', a = front ++ a' ∧ raw = a' ++ 0x22 :: b := by
  rcases List.append_eq_append_iff.mp h with ⟨a', ha, hraw⟩ | ⟨c, hc, hmark⟩
  · exact ⟨a', ha, hraw⟩
  · cases c with
    | nil =>
      rw [List.append_nil] at hc
      exact ⟨[], by rw [hc, List.append_nil], hmark.symm⟩
    | cons d c =>
      cases hmark
      exact absurd (hc ▸ List.mem_append_right _ (List.mem_cons_self ..)) hfront

/-- A mark behind `a` is escaped, and what is behind the mark goes on as a string. -/
def Escaped (a b s : Bytes) : Prop := a.getLast? = some 0x5C ∧ ∃ s₁ s₂, s = s₁ ++ 0x22 :: s₂ ∧ Body b s₂

theorem Escaped.behind {a b s : Bytes} (h : Escaped a b s) (front decoded : Bytes) :
    Escaped (front ++ a) b (decoded ++ s) := by
  obtain ⟨hlast, s₁, s₂, rfl, hb⟩ := h
  refine ⟨?_, decoded ++ s₁, s₂, (List.append_assoc ..).symm, hb⟩
  rw [List.getLast?_append, hlast]
  rfl

/-- **A quotation mark inside a string is escaped.** -/
theorem Body.escaped {raw s a b : Bytes} (h : Body raw s) (hraw : raw = a ++ 0x22 :: b) : Escaped a b s := by
  induction h generalizing a with
  | nil => cases a <;> cases hraw
  | plain hc _ ih =>
    obtain ⟨a', rfl, hrest⟩ := split_quote (quote_not_mem hc) hraw
    exact (ih hrest).behind _ _
  | @short e d raw s he hbody ih =>
    by_cases hquote : e = 0x22
    · subst hquote
      have hd : d = 0x22 := (Option.some.inj he).symm
      subst hd
      cases a with
      | nil => cases hraw
      | cons x a =>
        cases a with
        | nil =>
          cases hraw
          exact ⟨rfl, [], s, rfl, hbody⟩
        | cons y a =>
          cases hraw
          exact (ih rfl).behind [0x5C, 0x22] [0x22]
    · have hfront : 0x22 ∉ [0x5C, e] := by
        simp [Ne.symm hquote]
      obtain ⟨a', rfl, hrest⟩ := split_quote hfront (show [0x5C, e] ++ raw = a ++ 0x22 :: b from hraw)
      exact (ih hrest).behind _ [d]
  | unicode hdigits _ ih =>
    obtain ⟨a', rfl, hrest⟩ := split_quote (quote_not_mem_unicode hdigits) hraw
    exact (ih hrest).behind _ _
  | @pair high low h l c raw s hhigh hlow _ _ _ _ ih =>
    have hfront : 0x22 ∉ 0x5C :: 0x75 :: high ++ 0x5C :: 0x75 :: low :=
      List.not_mem_append (quote_not_mem_unicode hhigh) (quote_not_mem_unicode hlow)
    obtain ⟨a', rfl, hrest⟩ := split_quote hfront hraw
    exact (ih hrest).behind _ _

/-- A text a string that was written as it is can stand before: nothing in it can be taken
for the end of that string. -/
def Delimits (suffix : Bytes) : Prop := 0x22 ∉ suffix ∨ ∃ c more, suffix = c :: 0x22 :: more ∧ c ≠ 0x5C

/-- A plain string that is written as it is ends where it was ended. -/
theorem IsString.plain {p s suffix rest : Bytes} (h : IsString (quoted p suffix) s rest) (hp : Plain p) :
    rest = suffix := by
  obtain ⟨raw, htext, hbody⟩ := h
  have heq : p ++ 0x22 :: suffix = raw ++ 0x22 :: rest := (List.cons.inj htext).2
  obtain ⟨a, rfl, hrest⟩ := split_quote hp.quote_not_mem heq
  cases a with
  | nil =>
    cases hrest
    rfl
  | cons c a =>
    cases hrest
    have hlast := (hbody.escaped rfl).1
    exact absurd (List.mem_of_getLast? hlast) hp.backslash_not_mem

/-- What is read beyond the end of a string that was written as it is would have to end in
the backslash before that end. -/
theorem Delimits.not_beyond {a rest s : Bytes} (h : Delimits (a ++ 0x22 :: rest)) (hbody : Body a s) :
    (0x22 :: s).getLast? ≠ some 0x5C := by
  rcases h with hno | ⟨c, more, hsuffix, hc⟩
  · exact absurd (List.mem_append_right a (List.mem_cons_self ..)) hno
  · intro hlast
    have hlen := hbody.length
    cases s with
    | nil => cases hlast
    | cons d s =>
      rw [List.getLast?_cons_cons] at hlast
      cases a with
      | nil => exact absurd hlen.1 (by simp)
      | cons b a =>
        obtain ⟨rfl, hbehind⟩ := List.cons.inj hsuffix
        cases a with
        | nil =>
          -- one byte stands for itself
          have hone : s = [] := List.length_eq_zero_iff.mp (by simpa using hlen.1)
          subst hone
          obtain ⟨heq, -⟩ := hlen.2 rfl
          cases heq
          exact hc (Option.some.inj hlast)
        | cons y a =>
          cases hbehind
          exact hc (Option.some.inj (hbody.escaped (a := [b]) rfl).1)

/-- **A string that is written as it is and read as it is was plain.** -/
theorem IsString.exact {p suffix rest : Bytes} (h : IsString (quoted p suffix) p rest) (hsuffix : Delimits suffix) :
    Plain p ∧ rest = suffix := by
  obtain ⟨raw, htext, hbody⟩ := h
  have heq : p ++ 0x22 :: suffix = raw ++ 0x22 :: rest := (List.cons.inj htext).2
  obtain ⟨a, rfl, hrest⟩ : ∃ a, raw = p ++ a ∧ 0x22 :: suffix = a ++ 0x22 :: rest := by
    rcases List.append_eq_append_iff.mp heq with ⟨a, hraw, hrest⟩ | ⟨c, hp, hrest⟩
    · exact ⟨a, hraw, hrest⟩
    · have hc : c = [] := by
        have hle := hbody.length.1
        rw [hp, List.length_append] at hle
        exact List.length_eq_zero_iff.mp (by omega)
      subst hc
      exact ⟨[], by rw [hp, List.append_nil, List.append_nil], hrest.symm⟩
  cases a with
  | nil =>
    cases hrest
    exact ⟨(hbody.length.2 (by rw [List.append_nil])).2, rfl⟩
  | cons c a =>
    cases hrest
    obtain ⟨hlast, s₁, s₂, hp, ha⟩ := hbody.escaped rfl
    rw [hp, List.getLast?_append_of_ne_nil _ (List.cons_ne_nil _ _)] at hlast
    exact absurd hlast (hsuffix.not_beyond ha)

/-! ### Objects of strings, written as they are -/

/-- The members behind the first, and the end of the object. -/
def emitTail : List (Bytes × Bytes) → Bytes
  | [] => [0x7D]
  | (k, v) :: members => 0x2C :: quoted k (0x3A :: quoted v (emitTail members))

/-- An object with a first member, every string written as it is. -/
def emit (k v : Bytes) (members : List (Bytes × Bytes)) : Bytes :=
  0x7B :: quoted k (0x3A :: quoted v (emitTail members))

/-- Members that are strings. -/
def strings (members : List (Bytes × Bytes)) : List (Bytes × Data) := members.map fun m => (m.1, .str m.2)

theorem delimits_emitTail (members : List (Bytes × Bytes)) : Delimits (emitTail members) := by
  cases members with
  | nil => exact .inl (by decide)
  | cons m members => exact .inr ⟨0x2C, _, rfl, by decide⟩

/-- Where no white space is, none is skipped. -/
theorem Ws.eq {c : UInt8} {text rest : Bytes} (h : Ws (c :: text) rest) (hc : ¬ isWs c) : rest = c :: text := by
  obtain ⟨blanks, htext, hblanks⟩ := h
  cases blanks with
  | nil => exact htext.symm
  | cons d blanks =>
    cases htext
    exact absurd (hblanks c (List.mem_cons_self ..)) hc

theorem Ws.refl (text : Bytes) : Ws text text := ⟨[], rfl, fun _ h => absurd h List.not_mem_nil⟩

theorem token (c : UInt8) (rest : Bytes) : Token c (c :: rest) rest := ⟨rest, Ws.refl _, Ws.refl _⟩

/-- Before a string nothing is skipped. -/
theorem Token.quoted {c : UInt8} {p text rest : Bytes} (h : Token c (c :: quoted p text) rest) (hc : ¬ isWs c) :
    rest = quoted p text := by
  obtain ⟨behind, hbefore, hafter⟩ := h
  cases hbefore.eq hc
  exact hafter.eq (by decide)

theorem Value.isString {text s rest : Bytes} (h : Value text (.str s) rest) : IsString text s rest := by
  cases h with
  | str hstring => exact hstring

theorem Value.members {text rest : Bytes} {m : Bytes × Data} {members : List (Bytes × Data)}
    (h : Value text (.obj (m :: members)) rest) :
    ∃ t u, Token 0x7B text t ∧ Members t (m :: members) u ∧ Token 0x7D u rest := by
  cases h with
  | obj hopen hmembers hclose => exact ⟨_, _, hopen, hmembers, hclose⟩

/-- What is read as the value it was written for was plain, and is all that was read. -/
theorem Value.exact {v rest : Bytes} {members : List (Bytes × Bytes)}
    (h : Value (quoted v (emitTail members)) (.str v) rest) : Plain v ∧ rest = emitTail members :=
  h.isString.exact (delimits_emitTail members)

/-- The key and the colon behind it are read as they were written. -/
theorem IsString.key {k v t u tail : Bytes} (hk : Plain k) (hkey : IsString (Json.quoted k (0x3A :: Json.quoted v tail)) k t)
    (hcolon : Token 0x3A t u) : u = Json.quoted v tail := by
  rw [hkey.plain hk] at hcolon
  exact hcolon.quoted (by decide)

theorem Members.exact {k v rest : Bytes} {members : List (Bytes × Bytes)}
    (h : Members (quoted k (0x3A :: quoted v (emitTail members))) (strings ((k, v) :: members)) rest)
    (hkeys : ∀ m ∈ (k, v) :: members, Plain m.1) : ∀ m ∈ (k, v) :: members, Plain m.2 := by
  induction members generalizing k v with
  | nil =>
    have hk : Plain k := hkeys _ (List.mem_cons_self ..)
    cases h with
    | one hkey hcolon hvalue =>
      cases hkey.key hk hcolon
      exact List.forall_mem_singleton.mpr hvalue.exact.1
    | cons _ _ _ _ hmore => cases hmore
  | cons m members ih =>
    obtain ⟨hk, hkeys⟩ := List.forall_mem_cons.mp hkeys
    cases h with
    | cons hkey hcolon hvalue hcomma hmore =>
      cases hkey.key hk hcolon
      obtain ⟨hv, rfl⟩ := hvalue.exact
      cases hcomma.quoted (by decide)
      exact List.forall_mem_cons.mpr ⟨hv, ih hmore hkeys⟩

theorem members_emit {k v : Bytes} {members : List (Bytes × Bytes)} (h : ∀ m ∈ (k, v) :: members, Plain m.1 ∧ Plain m.2) :
    Members (quoted k (0x3A :: quoted v (emitTail members))) (strings ((k, v) :: members)) [0x7D] := by
  induction members generalizing k v with
  | nil =>
    obtain ⟨hk, hv⟩ := h _ (List.mem_cons_self ..)
    exact .one ⟨k, rfl, hk.body⟩ (token ..) (.str ⟨v, rfl, hv.body⟩)
  | cons m members ih =>
    obtain ⟨⟨hk, hv⟩, hmembers⟩ := List.forall_mem_cons.mp h
    exact .cons ⟨k, rfl, hk.body⟩ (token ..) (.str ⟨v, rfl, hv.body⟩) (token ..) (ih hmembers)

/-- **An object of strings written as they are is read as it was meant exactly when the strings
are plain.** -/
theorem emit_iff {k v : Bytes} {members : List (Bytes × Bytes)} (hkeys : ∀ m ∈ (k, v) :: members, Plain m.1) :
    Text (emit k v members) (.obj (strings ((k, v) :: members))) ↔ ∀ m ∈ (k, v) :: members, Plain m.2 := by
  constructor
  · intro h
    obtain ⟨t, u, hbefore, hvalue, -⟩ := h
    cases hbefore.eq (by decide)
    obtain ⟨t, u, hopen, hmembers, -⟩ := hvalue.members
    cases hopen.quoted (by decide)
    exact hmembers.exact hkeys
  · intro h
    exact ⟨_, [], Ws.refl _, .obj (token ..) (members_emit fun m hm => ⟨hkeys m hm, h m hm⟩) (token ..), Ws.refl []⟩

end VrxServer.Base.Json
