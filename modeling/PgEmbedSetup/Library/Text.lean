import Mathlib.Data.List.DropRight
import Mathlib.Data.Nat.Digits.Defs

set_option autoImplicit false

/-!
Byte strings as the operating system hands them over, their UTF-8 reading, and the
little text handling a PID file or a password file needs: lines, trimming, decimals.
-/

namespace PgEmbedSetup.Library

/-- An `OsString`, a path or a file's content on Unix. -/
abbrev Bytes := List UInt8

/-- A decoded string. -/
abbrev Text := List Char

instance textsLawfulBEq : LawfulBEq (List Text) := inferInstance

/-- The bytes of an ASCII literal. -/
def ascii (s : String) : Bytes := s.toList.map (fun c => c.toNat.toUInt8)

/-! ### UTF-8 -/

/-- Inside a sequence: how many bytes are missing, the value so far, and the range the
next byte must lie in. -/
inductive Utf8State where
  | start
  | more (left value : Nat) (lo hi : UInt8)
  deriving DecidableEq, Repr

inductive Utf8Step where
  | char (c : Char)
  | wait (s : Utf8State)
  | invalid

def startByte (b : UInt8) : Utf8Step :=
  if b < 0x80 then .char (Char.ofNat b.toNat)
  else if 0xC2 ≤ b ∧ b ≤ 0xDF then .wait (.more 1 (b.toNat-0xC0) 0x80 0xBF)
  else if b = 0xE0 then .wait (.more 2 0 0xA0 0xBF)
  else if b = 0xED then .wait (.more 2 0xD 0x80 0x9F)
  else if 0xE1 ≤ b ∧ b ≤ 0xEF then .wait (.more 2 (b.toNat-0xE0) 0x80 0xBF)
  else if b = 0xF0 then .wait (.more 3 0 0x90 0xBF)
  else if 0xF1 ≤ b ∧ b ≤ 0xF3 then .wait (.more 3 (b.toNat-0xF0) 0x80 0xBF)
  else if b = 0xF4 then .wait (.more 3 4 0x80 0x8F)
  else .invalid

def nextByte : Utf8State → UInt8 → Utf8Step
  | .start, b => startByte b
  | .more left value lo hi, b =>
    if lo ≤ b ∧ b ≤ hi then
      let value := value*64+(b.toNat-0x80)
      if left ≤ 1 then .char (Char.ofNat value) else .wait (.more (left-1) value 0x80 0xBF)
    else .invalid

def decodeFrom : Utf8State → Bytes → Option Text
  | .start, [] => some []
  | .more .., [] => none
  | s, b :: rest =>
    match nextByte s b with
    | .char c => (decodeFrom .start rest).map (c :: ·)
    | .wait t => decodeFrom t rest
    | .invalid => none

/-- `str::from_utf8`: the text, or `none` when the bytes are not UTF-8. -/
def decodeUtf8 (bytes : Bytes) : Option Text := decodeFrom .start bytes

def replacement : Char := Char.ofNat 0xFFFD

def lossyFrom : Utf8State → Bytes → Text
  | .start, [] => []
  | .more .., [] => [replacement]
  | s, b :: rest =>
    match nextByte s b with
    | .char c => c :: lossyFrom .start rest
    | .wait t => lossyFrom t rest
    | .invalid =>
      -- The broken sequence ends before this byte, which may start another one.
      match s, startByte b with
      | .start, _ => replacement :: lossyFrom .start rest
      | .more .., .char c => replacement :: c :: lossyFrom .start rest
      | .more .., .wait t => replacement :: lossyFrom t rest
      | .more .., .invalid => replacement :: replacement :: lossyFrom .start rest

/-- `String::from_utf8_lossy`. -/
def fromUtf8Lossy (bytes : Bytes) : Text := lossyFrom .start bytes

def encodeUtf8 (text : Text) : Bytes := text.flatMap String.utf8EncodeChar

def asciiByte (c : Char) : UInt8 := c.toNat.toUInt8

theorem asciiByte_toNat {c : Char} (h : c.toNat < 128) : (asciiByte c).toNat = c.toNat := by
  simp only [asciiByte,Nat.toUInt8,UInt8.toNat_ofNat']
  omega

theorem nextByte_ascii {c : Char} (h : c.toNat < 128) :
    nextByte .start (asciiByte c) = .char c := by
  have hb := asciiByte_toNat h
  have hlt : asciiByte c < 0x80 := by
    rw [UInt8.lt_iff_toNat_lt,hb]
    exact h
  simp [nextByte,startByte,hlt,hb,Char.ofNat_toNat]

/-- ASCII characters in front decode one by one. -/
theorem decodeUtf8_ascii_append (cs : Text) (rest : Bytes) (h : ∀ c ∈ cs, c.toNat < 128) :
    decodeUtf8 (cs.map asciiByte ++ rest) = (decodeUtf8 rest).map (cs ++ ·) := by
  induction cs with
  | nil => cases hd : decodeUtf8 rest <;> simp [hd]
  | cons c cs ih =>
    have htail := ih (fun d hd => h d (by simp [hd]))
    simp only [decodeUtf8,List.map_cons,List.cons_append,decodeFrom,
      nextByte_ascii (h c (by simp))] at htail ⊢
    rw [htail]
    cases decodeFrom .start rest <;> simp

theorem decodeUtf8_newline {rest : Bytes} {text : Text} (h : ∀ b ∈ rest.head?, b = 10)
    (hd : decodeUtf8 rest = some text) : ∀ c ∈ text.head?, c = '\n' := by
  cases rest with
  | nil =>
    have ht : text = [] := by
      simpa [decodeUtf8,decodeFrom] using hd.symm
    simp [ht]
  | cons b bs =>
    have hb : b = asciiByte '\n' := h b (by simp)
    have happ := decodeUtf8_ascii_append ['\n'] bs (by simp)
    rw [hb] at hd
    simp only [List.map_cons,List.map_nil,List.cons_append,List.nil_append] at happ
    rw [happ] at hd
    obtain ⟨t,_,rfl⟩ := Option.map_eq_some_iff.mp hd
    simp

/-- Inside a sequence no ASCII byte is accepted, and the character it ends in is not ASCII. -/
def Utf8State.Wide : Utf8State → Prop
  | .start => True
  | .more left value lo _ =>
    128 ≤ lo.toNat ∧ 2 ≤ if left ≤ 1 then value else value*64+(lo.toNat-128)

theorem startByte_wait {t : Utf8State} {b : UInt8} (h : startByte b = .wait t) : t.Wide := by
  simp only [startByte,UInt8.lt_iff_toNat_lt,UInt8.le_iff_toNat_le,UInt8.reduceToNat] at h
  split at h
  · cases h
  · repeat' split at h
    all_goals cases h
    all_goals simp only [Utf8State.Wide,UInt8.reduceToNat]
    all_goals simp
    all_goals omega

theorem nextByte_wait {s t : Utf8State} {b : UInt8} (hs : s.Wide) (h : nextByte s b = .wait t) :
    t.Wide ∧ b ≠ 0 := by
  cases s with
  | start =>
    refine ⟨startByte_wait h,?_⟩
    rintro rfl
    cases h
  | more left value lo hi =>
    simp only [nextByte] at h
    split at h
    · next hb =>
      obtain ⟨hlo,hwide⟩ := hs
      rw [UInt8.le_iff_toNat_le] at hb
      split at h
      · cases h
      · next hleft =>
        rw [if_neg hleft] at hwide
        cases h
        refine ⟨⟨by decide,by split <;> omega⟩,?_⟩
        rintro rfl
        exact absurd (hlo.trans hb.1) (by decide)
    · cases h

theorem ofNat_ne_newline {n : Nat} (h : n ≠ 10) : Char.ofNat n ≠ '\n' := by
  by_cases hvalid : n.isValidChar
  · have hof : Char.ofNat n = Char.ofNatAux n hvalid := dif_pos hvalid
    intro hc
    exact h (congrArg Char.toNat (hof.symm.trans hc))
  · have hof : Char.ofNat n = _ := dif_neg hvalid
    rw [hof]
    decide

theorem nextByte_char {s : Utf8State} {b : UInt8} {c : Char} (hs : s.Wide)
    (h : nextByte s b = .char c) : (b ≠ 10 → c ≠ '\n') ∧ (b = 0 → c = Char.ofNat 0) := by
  cases s with
  | start =>
    simp only [nextByte,startByte] at h
    split at h
    · cases h
      refine ⟨fun hb => ofNat_ne_newline ?_,fun hb => by rw [hb]; rfl⟩
      exact fun hn => hb (UInt8.toNat_inj.mp hn)
    · repeat' split at h
      all_goals cases h
  | more left value lo hi =>
    simp only [nextByte] at h
    split at h
    · next hb =>
      obtain ⟨hlo,hwide⟩ := hs
      rw [UInt8.le_iff_toNat_le] at hb
      split at h
      · next hleft =>
        rw [if_pos hleft] at hwide
        simp only [Utf8Step.char.injEq] at h
        subst h
        refine ⟨fun _ => ofNat_ne_newline (by omega),?_⟩
        rintro rfl
        exact absurd (hlo.trans hb.1) (by decide)
      · cases h
    · cases h

/-- A NUL byte in the first line is a NUL character in the decoded first line. -/
theorem decodeFrom_nul {s : Utf8State} {bytes : Bytes} {text : Text} (hs : s.Wide)
    (hd : decodeFrom s bytes = some text) (hnul : 0 ∈ bytes.takeWhile (· != 10)) :
    Char.ofNat 0 ∈ text.takeWhile (· != '\n') := by
  induction bytes generalizing s text with
  | nil => cases hnul
  | cons b rest ih =>
    by_cases hb : b = 10
    · simp [hb] at hnul
    · have hmem : 0 = b ∨ 0 ∈ rest.takeWhile (· != 10) := by
        simpa [hb] using hnul
      rw [decodeFrom] at hd
      cases hstep : nextByte s b with
      | char c =>
        obtain ⟨hline,hzero⟩ := nextByte_char hs hstep
        simp only [hstep,Option.map_eq_some_iff] at hd
        obtain ⟨tail,htail,rfl⟩ := hd
        have hc : (c != '\n') = true := by
          simpa using hline hb
        simp only [List.takeWhile_cons,hc,if_true,List.mem_cons]
        rcases hmem with rfl | hmem
        · exact .inl (hzero rfl).symm
        · exact .inr (ih (s := .start) trivial htail hmem)
      | wait t =>
        obtain ⟨ht,hne⟩ := nextByte_wait hs hstep
        simp only [hstep] at hd
        exact ih ht hd (hmem.resolve_left (Ne.symm hne))
      | invalid => simp [hstep] at hd

/-! ### Lines and trimming -/

/-- `char::is_whitespace`. -/
def isWhitespace (c : Char) : Bool :=
  let n := c.toNat
  (9 ≤ n && n ≤ 13) || n == 32 || n == 0x85 || n == 0xA0 || n == 0x1680 ||
    (0x2000 ≤ n && n ≤ 0x200A) || n == 0x2028 || n == 0x2029 || n == 0x202F || n == 0x205F ||
    n == 0x3000

def trimEnd (p : Char → Bool) (text : Text) : Text := text.rdropWhile p

def trim (text : Text) : Text := trimEnd isWhitespace (text.dropWhile isWhitespace)

/-- `text.lines().next()`: a carriage return goes only with the newline it precedes. -/
def firstLine (text : Text) : Option Text :=
  if text.isEmpty then none
  else
    let line := text.takeWhile (· != '\n')
    some (if text.contains '\n' && line.getLast? == some '\r' then line.dropLast else line)

theorem trimEnd_of_none {p : Char → Bool} {text : Text} (h : ∀ c ∈ text, p c = false) :
    trimEnd p text = text := by
  refine List.rdropWhile_eq_self_iff.mpr ?_
  intro hne
  simp [h _ (List.getLast_mem hne)]

theorem trim_of_none {text : Text} (h : ∀ c ∈ text, isWhitespace c = false) :
    trim text = text := by
  have hd : text.dropWhile isWhitespace = text := by
    cases text with
    | nil => rfl
    | cons c cs => simp [h c (by simp)]
  rw [trim,hd,trimEnd_of_none h]

theorem trimEnd_newlines (text : Text) (n : Nat) :
    trimEnd isWhitespace (text ++ List.replicate n '\n') = trimEnd isWhitespace text := by
  induction n with
  | zero => rw [List.replicate_zero,List.append_nil]
  | succ n ih =>
    rw [List.replicate_succ',← List.append_assoc,trimEnd,List.rdropWhile_concat_pos _ _ _ rfl]
    exact ih

theorem trim_newlines {text : Text} (n : Nat) (hne : text ≠ [])
    (h : ∀ c ∈ text, isWhitespace c = false) :
    trim (text ++ List.replicate n '\n') = text := by
  have hd : (text ++ List.replicate n '\n').dropWhile isWhitespace =
      text ++ List.replicate n '\n' := by
    cases text with
    | nil => exact absurd rfl hne
    | cons c cs => simp [h c (by simp)]
  rw [trim,hd,trimEnd_newlines,trimEnd_of_none h]

theorem mem_dropWhile {α : Type} {p : α → Bool} {a : α} {l : List α} (hmem : a ∈ l)
    (ha : p a = false) : a ∈ l.dropWhile p := by
  rw [← List.takeWhile_append_dropWhile (p := p) (l := l)] at hmem
  rcases List.mem_append.mp hmem with htake | hdrop
  · have hp := List.mem_takeWhile_imp htake
    rw [ha] at hp
    cases hp
  · exact hdrop

/-- Trimming takes no character that is not white space. -/
theorem mem_trim {text : Text} {c : Char} (hmem : c ∈ text) (hc : isWhitespace c = false) :
    c ∈ trim text := by
  have hstart := mem_dropWhile hmem hc
  rw [trim,trimEnd,List.rdropWhile,List.mem_reverse]
  exact mem_dropWhile (List.mem_reverse.mpr hstart) hc

theorem trim_isEmpty {text : Text} {c : Char} (hmem : c ∈ text) (hc : isWhitespace c = false) :
    (trim text).isEmpty = false := by
  cases he : (trim text).isEmpty with
  | false => rfl
  | true =>
    have hin := mem_trim hmem hc
    rw [List.isEmpty_iff.mp he] at hin
    cases hin

theorem mem_firstLine {text line : Text} {c : Char} (h : firstLine text = some line)
    (hmem : c ∈ text.takeWhile (· != '\n')) (hc : c ≠ '\r') : c ∈ line := by
  rw [firstLine] at h
  split at h
  · cases h
  · rw [Option.some.injEq] at h
    subst h
    split
    · next hlast =>
      rw [Bool.and_eq_true,beq_iff_eq] at hlast
      have happ := List.dropLast_append_getLast? _ hlast.2
      rw [← happ,List.mem_append,List.mem_singleton] at hmem
      exact hmem.resolve_right hc
    · exact hmem

theorem firstLine_append {line rest : Text} (hne : line ≠ [])
    (hline : ∀ c ∈ line, c ≠ '\n' ∧ c ≠ '\r') (hrest : ∀ c ∈ rest.head?, c = '\n') :
    firstLine (line ++ rest) = some line := by
  have htake : (line ++ rest).takeWhile (· != '\n') = line := by
    have hl : ∀ c ∈ line, (c != '\n') = true := by
      intro c hc
      simpa using (hline c hc).1
    rw [List.takeWhile_append_of_pos hl]
    cases rest with
    | nil => simp
    | cons c cs =>
      have hc := hrest c (by simp)
      simp [hc]
  have hempty : (line ++ rest).isEmpty = false := by
    cases line with
    | nil => exact absurd rfl hne
    | cons c cs => rfl
  have hlast : (line.getLast? == some '\r') = false := by
    cases hg : line.getLast? with
    | none => rfl
    | some c =>
      have hmem := List.mem_of_getLast? hg
      simpa using (hline c hmem).2
  simp only [firstLine,hempty,htake,hlast,Bool.and_false,Bool.false_eq_true,if_false]

/-- The first line of a file that begins with ASCII text and a line end. -/
theorem firstLine_decoded {line text : Text} {rest : Bytes} (hne : line ≠ [])
    (hascii : ∀ c ∈ line, c.toNat < 128) (hvisible : ∀ c ∈ line, isWhitespace c = false)
    (hrest : ∀ b ∈ rest.head?, b = 10)
    (hd : decodeUtf8 (line.map asciiByte ++ rest) = some text) :
    line <+: text ∧ firstLine text = some line := by
  rw [decodeUtf8_ascii_append line rest hascii] at hd
  obtain ⟨tail,htail,rfl⟩ := Option.map_eq_some_iff.mp hd
  refine ⟨line.prefix_append tail,?_⟩
  have hline : ∀ c ∈ line, c ≠ '\n' ∧ c ≠ '\r' := by
    intro c hc
    have hv := hvisible c hc
    constructor
    · rintro rfl
      exact absurd hv (by decide)
    · rintro rfl
      exact absurd hv (by decide)
  exact firstLine_append hne hline (decodeUtf8_newline hrest htail)

/-! ### Splitting -/

/-- The parts hold what the whole does, but no separator. -/
theorem exists_mem_splitOn {α : Type} [BEq α] [LawfulBEq α] {a c : α} {xs : List α} :
    (∃ part ∈ xs.splitOn a, c ∈ part) ↔ c ∈ xs ∧ c ≠ a := by
  induction xs with
  | nil => simp
  | cons x xs ih =>
    rw [List.splitOn_cons_eq_if_modifyHead]
    split
    · next hx =>
      obtain rfl : x = a := by simpa using hx
      rw [List.exists_mem_cons_iff,ih]
      simp only [List.not_mem_nil,false_or,List.mem_cons]
      constructor
      · exact fun h => ⟨.inr h.1,h.2⟩
      · exact fun h => ⟨h.1.resolve_left h.2,h.2⟩
    · next hx =>
      have hne : x ≠ a := by simpa using hx
      obtain ⟨first,rest,hsplit⟩ := List.exists_cons_of_ne_nil (List.splitOn_ne_nil a xs)
      rw [hsplit,List.exists_mem_cons_iff] at ih
      rw [hsplit,List.modifyHead_cons,List.exists_mem_cons_iff,List.mem_cons,List.mem_cons,
        or_assoc,ih]
      constructor
      · rintro (rfl | h)
        · exact ⟨.inl rfl,hne⟩
        · exact ⟨.inr h.1,h.2⟩
      · rintro ⟨rfl | h,hc⟩
        · exact .inl rfl
        · exact .inr ⟨h,hc⟩

/-! ### Decimal numbers -/

/-- `none` when some character is not a decimal digit. -/
def digitsValue (text : Text) : Option Nat :=
  if text.all Char.isDigit then some (Nat.ofDigitChars 10 text 0) else none

/-- `str::parse` for an unsigned type with the given largest value. -/
def parseUnsigned (max : Nat) (text : Text) : Option Nat :=
  let digits := if text.head? = some '+' then text.tail else text
  if digits.isEmpty then none
  else (digitsValue digits).filter (· ≤ max)

/-- `str::parse` for a signed type: the smallest value is one further from zero. -/
def parseSigned (max : Nat) (text : Text) : Option Int :=
  if text.head? = some '-' then
    if text.tail.isEmpty then none
    else ((digitsValue text.tail).filter (· ≤ max+1)).map (fun n => -(n : Int))
  else (parseUnsigned max text).map (fun n => (n : Int))

def decimal (n : Nat) : Text := Nat.toDigits 10 n

theorem isDigit_bounds {c : Char} (h : c.isDigit = true) : 48 ≤ c.toNat ∧ c.toNat ≤ 57 := by
  simp only [Char.isDigit,Bool.and_eq_true,decide_eq_true_eq,ge_iff_le,UInt32.le_iff_toNat_le] at h
  exact h

theorem decimal_isDigit {n : Nat} {c : Char} (h : c ∈ decimal n) : c.isDigit = true :=
  Nat.isDigit_of_mem_toDigits (by decide) (by decide) h

theorem decimal_ascii {n : Nat} {c : Char} (h : c ∈ decimal n) : c.toNat < 128 := by
  have hb := isDigit_bounds (decimal_isDigit h)
  omega

theorem decimal_ne_nil (n : Nat) : decimal n ≠ [] := Nat.toDigits_ne_nil

theorem digitsValue_decimal (n : Nat) : digitsValue (decimal n) = some n := by
  have hall : (decimal n).all Char.isDigit = true := by
    simp only [List.all_eq_true]
    intro c hc
    exact decimal_isDigit hc
  rw [digitsValue,if_pos hall,decimal,Nat.ofDigitChars_ten_toDigits]

theorem parseUnsigned_decimal {n max : Nat} (h : n ≤ max) :
    parseUnsigned max (decimal n) = some n := by
  have hplus : (decimal n).head? ≠ some '+' := by
    intro hh
    have hd := decimal_isDigit (List.mem_of_head? hh)
    exact absurd hd (by decide)
  have hempty : (decimal n).isEmpty = false := by
    simpa using decimal_ne_nil n
  simp [parseUnsigned,hplus,hempty,digitsValue_decimal,h]

theorem digitsValue_mem {n : Nat} {text : Text} {c : Char} (h : digitsValue text = some n)
    (hmem : c ∈ text) : c.isDigit = true := by
  rw [digitsValue] at h
  split at h
  · next hall => exact List.all_eq_true.mp hall c hmem
  · cases h

/-- What parses holds digits, after at most a sign. -/
theorem parseUnsigned_mem {max n : Nat} {text : Text} {c : Char}
    (h : parseUnsigned max text = some n) (hmem : c ∈ text) : c.isDigit = true ∨ c = '+' := by
  have hdigits : ∀ digits : Text,
      (if digits.isEmpty then none else (digitsValue digits).filter (· ≤ max)) = some n →
      c ∈ digits → c.isDigit = true := by
    intro digits hd hc
    split at hd
    · cases hd
    · exact digitsValue_mem (Option.filter_eq_some_iff.mp hd).1 hc
  by_cases hplus : text.head? = some '+'
  · simp only [parseUnsigned,if_pos hplus] at h
    cases text with
    | nil => cases hmem
    | cons d rest =>
      rcases List.mem_cons.mp hmem with rfl | hrest
      · exact .inr (Option.some.inj hplus)
      · exact .inl (hdigits rest h hrest)
  · simp only [parseUnsigned,if_neg hplus] at h
    exact .inl (hdigits text h hmem)

/-- A minus sign never parses as an unsigned number. -/
theorem parseUnsigned_minus (max : Nat) (text : Text) :
    parseUnsigned max ('-' :: text) = none := by
  have hd : digitsValue ('-' :: text) = none := by
    simp [digitsValue,show ('-' : Char).isDigit = false from by decide]
  simp [parseUnsigned,hd]

theorem isWhitespace_of_isDigit {c : Char} (h : c.isDigit = true) : isWhitespace c = false := by
  have hb := isDigit_bounds h
  simp only [isWhitespace,Bool.or_eq_false_iff,Bool.and_eq_false_iff,decide_eq_false_iff_not,
    beq_eq_false_iff_ne]
  omega

theorem decimal_visible {n : Nat} {c : Char} (h : c ∈ decimal n) : isWhitespace c = false :=
  isWhitespace_of_isDigit (decimal_isDigit h)

end PgEmbedSetup.Library
