import Mathlib.Data.List.Infix
import Mathlib.Data.List.TakeWhile
import PgEmbedSetup.Library.Text

set_option autoImplicit false

/-!
`src/env/summary.rs`: the bounded text that a scope of environment changes is logged with, and
what it says of the changes it leaves out.
-/

namespace PgEmbedSetup.Env.Summary
open Library

def maxEnvChangesSummaryLen : Nat := 512

/-- `str::len`. -/
def byteLen (text : Text) : Nat := (text.map Char.utf8Size).sum

def charIndices : Nat → Text → List (Nat × Char)
  | _, [] => []
  | idx, ch :: rest => (idx,ch) :: charIndices (idx+ch.utf8Size) rest

/-- The loop of `find_preferred_cut_point`: the end of the last character read, and of the last
comma. -/
def scanCut (maxLen : Nat) : List (Nat × Char) → Nat × Option Nat → Nat × Option Nat
  | [], found => found
  | (idx,ch) :: rest, (cut,comma) =>
    if maxLen ≤ idx then (cut,comma)
    else
      let cut := idx+ch.utf8Size
      scanCut maxLen rest (cut,if ch = ',' then some cut else comma)

def findPreferredCutPoint (changes : Text) (maxLen : Nat) : Nat :=
  let (cut,lastComma) := scanCut maxLen (charIndices 0 changes) (0,none)
  (lastComma.filter fun pos => maxLen < pos*2).getD cut

/-- `strip_suffix(',')`, or the text itself. -/
def stripComma (text : Text) : Text :=
  if text.getLast? = some ',' then text.dropLast else text

def appendTruncationSuffix (truncated : Text) (shownChanges changeCount : Nat) : Text :=
  if shownChanges < changeCount then
    let remaining := changeCount-shownChanges
    let separator := if truncated ≠ [] ∧ truncated.getLast? ≠ some ',' then ", ".toList else []
    truncated ++ separator ++ ("+ ".toList ++ decimal remaining ++ " more".toList)
  else if "...".toList <:+ truncated then truncated
  else truncated ++ "...".toList

def truncateEnvChangesSummary (changes : Text) (maxLen changeCount : Nat) : Text :=
  if byteLen changes ≤ maxLen then changes
  else
    let preferredCut := findPreferredCutPoint changes maxLen
    let truncated :=
      ((charIndices 0 changes).takeWhile fun found => found.1 < preferredCut).map Prod.snd
    let truncated := trimEnd isWhitespace truncated
    let shownChanges := (stripComma truncated).count ','+1
    appendTruncationSuffix truncated shownChanges changeCount

/-- A change as it is logged: the name, and whether it is set. -/
def entry (change : Bytes × Option Bytes) : Text :=
  fromUtf8Lossy change.1 ++ '=' :: (if change.2.isSome then "set" else "unset").toList

/-- What `apply_owned_with_state` logs as `changes`. -/
def changesSummary (vars : List (Bytes × Option Bytes)) : Text :=
  let summary := vars.map entry
  truncateEnvChangesSummary (", ".toList.intercalate summary) maxEnvChangesSummaryLen summary.length

/-! ### Where the text is cut -/

@[simp] theorem byteLen_nil : byteLen [] = 0 := rfl

@[simp] theorem byteLen_cons (ch : Char) (text : Text) :
    byteLen (ch :: text) = ch.utf8Size+byteLen text := rfl

@[simp] theorem byteLen_append (first second : Text) :
    byteLen (first ++ second) = byteLen first+byteLen second := by
  simp [byteLen]

theorem byteLen_le_of_prefix {first second : Text} (h : first <+: second) :
    byteLen first ≤ byteLen second := by
  obtain ⟨rest,rfl⟩ := h
  simp

theorem takeWhile_charIndices (idx : Nat) {cut : Nat} (kept rest : Text)
    (hcut : cut = idx+byteLen kept) :
    ((charIndices idx (kept ++ rest)).takeWhile fun found => found.1 < cut).map Prod.snd =
      kept := by
  induction kept generalizing idx with
  | nil => cases rest <;> simp [charIndices,hcut]
  | cons ch kept ih =>
    have hpos := Char.utf8Size_pos ch
    rw [byteLen_cons] at hcut
    have hrest := ih (idx+ch.utf8Size) (by omega)
    rw [List.cons_append,charIndices,List.takeWhile_cons_of_pos (by simp; omega),List.map_cons,
      hrest]

/-- Between two characters, not at the start, and past the limit by less than a character. -/
def Cut (changes : Text) (maxLen pos : Nat) : Prop :=
  ∃ kept, kept ≠ [] ∧ kept <+: changes ∧ byteLen kept = pos ∧ pos ≤ maxLen+3

theorem scanCut_cut {maxLen : Nat} (kept rest : Text) (comma : Option Nat)
    (hkept : byteLen kept ≤ maxLen+3) (hstart : kept ≠ [] ∨ (0 < maxLen ∧ rest ≠ []))
    (hcomma : ∀ pos ∈ comma, Cut (kept ++ rest) maxLen pos) :
    let out := scanCut maxLen (charIndices (byteLen kept) rest) (byteLen kept,comma)
    Cut (kept ++ rest) maxLen out.1 ∧ ∀ pos ∈ out.2, Cut (kept ++ rest) maxLen pos := by
  induction rest generalizing kept comma with
  | nil =>
    have hne : kept ≠ [] := by simpa using hstart
    exact ⟨⟨kept,hne,List.prefix_append _ _,rfl,hkept⟩,hcomma⟩
  | cons ch rest ih =>
    simp only [charIndices,scanCut]
    split
    · next hge =>
      have hne : kept ≠ [] := by
        rcases hstart with hne | ⟨hmax,-⟩
        · exact hne
        · rintro rfl
          exact absurd hmax (by simpa using hge)
      exact ⟨⟨kept,hne,List.prefix_append _ _,rfl,hkept⟩,hcomma⟩
    · next hlt =>
      have hsize := Char.utf8Size_le_four ch
      have hlen : byteLen (kept ++ [ch]) = byteLen kept+ch.utf8Size := by simp
      have hnext : byteLen (kept ++ [ch]) ≤ maxLen+3 := by omega
      have htext : kept ++ [ch] ++ rest = kept ++ ch :: rest := by simp
      have hout := ih (kept ++ [ch])
        (if ch = ',' then some (byteLen kept+ch.utf8Size) else comma) hnext (.inl (by simp)) (by
          intro pos hmem
          rw [htext]
          split at hmem
          · cases hmem
            exact ⟨kept ++ [ch],by simp,⟨rest,htext⟩,hlen,by omega⟩
          · exact hcomma pos hmem)
      rwa [htext,hlen] at hout

theorem findPreferredCutPoint_cut {changes : Text} {maxLen : Nat} (hmax : 0 < maxLen)
    (hne : changes ≠ []) : Cut changes maxLen (findPreferredCutPoint changes maxLen) := by
  have hstart : byteLen [] ≤ maxLen+3 := Nat.zero_le _
  obtain ⟨hcut,hcomma⟩ := scanCut_cut [] changes none hstart (.inr ⟨hmax,hne⟩) (by simp)
  unfold findPreferredCutPoint
  dsimp only
  cases hfilter : ((scanCut maxLen (charIndices 0 changes) (0,none)).2.filter
      fun pos => maxLen < pos*2) with
  | none => exact hcut
  | some pos => exact hcomma pos (Option.filter_eq_some_iff.mp hfilter).1

/-! ### What is shown -/

def separator : Text := ", ".toList

/-- The first entries in full. -/
def before (entries : List Text) (n : Nat) : Text := (entries.take n).flatMap (· ++ separator)

/-- A text that shows so many of the entries, and what follows the last of them. -/
inductive Shows (entries : List Text) : Nat → Text → Prop where
  /-- The last one is cut, or ends where the text ends. -/
  | part {n : Nat} {e shown : Text} (he : entries[n]? = some e) (hlead : shown <+: e)
      (hne : shown ≠ []) : Shows entries (n+1) (before entries n ++ shown)
  /-- The text goes on after the last one. -/
  | whole {n : Nat} {e : Text} (he : entries[n]? = some e) (hmore : n+1 < entries.length) :
      Shows entries (n+1) (before entries n ++ e ++ [','])

theorem Shows.cons {entries : List Text} {e text : Text} {n : Nat} (h : Shows entries n text) :
    Shows (e :: entries) (n+1) (e ++ separator ++ text) := by
  cases h with
  | @part n f shown he hlead hne =>
    have hshow : Shows (e :: entries) (n+1+1) (before (e :: entries) (n+1) ++ shown) :=
      .part he hlead hne
    simpa [before,List.append_assoc] using hshow
  | @whole n f he hmore =>
    have hshow : Shows (e :: entries) (n+1+1) (before (e :: entries) (n+1) ++ f ++ [',']) :=
      .whole he (by simpa using Nat.succ_lt_succ hmore)
    simpa [before,List.append_assoc] using hshow

theorem Shows.le_length {entries : List Text} {n : Nat} {text : Text} (h : Shows entries n text) :
    0 < n ∧ n ≤ entries.length := by
  cases h with
  | part he hlead hne => exact ⟨Nat.succ_pos _,(List.getElem?_eq_some_iff.mp he).1⟩
  | whole he hmore => exact ⟨Nat.succ_pos _,hmore.le⟩

theorem intercalate_cons {e : Text} {entries : List Text} (h : entries ≠ []) :
    separator.intercalate (e :: entries) = e ++ separator ++ separator.intercalate entries := by
  cases entries with
  | nil => exact absurd rfl h
  | cons f rest => simp [List.intercalate,List.append_assoc]

theorem trimEnd_append {first second : Text} (h : trimEnd isWhitespace second ≠ []) :
    trimEnd isWhitespace (first ++ second) = first ++ trimEnd isWhitespace second := by
  unfold trimEnd at h ⊢
  simp only [List.rdropWhile,List.reverse_append] at h ⊢
  rw [List.dropWhile_append,if_neg (by simpa using h),List.reverse_append,List.reverse_reverse]

theorem trimEnd_blank {first second : Text} (h : trimEnd isWhitespace second = []) :
    trimEnd isWhitespace (first ++ second) = trimEnd isWhitespace first := by
  unfold trimEnd at h ⊢
  simp only [List.rdropWhile,List.reverse_append,List.reverse_eq_nil_iff] at h ⊢
  rw [List.dropWhile_append,if_pos (by simp [h])]

theorem trimEnd_visible {text : Text} {ch : Char} (h : isWhitespace ch = false) :
    trimEnd isWhitespace (text ++ [ch]) = text ++ [ch] :=
  List.rdropWhile_concat_neg _ _ _ (by simp [h])

theorem trimEnd_isPrefix (text : Text) : trimEnd isWhitespace text <+: text :=
  List.rdropWhile_prefix _ text

theorem prefix_append_cases {text first second : Text} (h : text <+: first ++ second) :
    text <+: first ∨ ∃ rest, text = first ++ rest ∧ rest <+: second := by
  rcases List.prefix_or_prefix_of_prefix h (List.prefix_append first second) with hle | ⟨rest,rfl⟩
  · exact .inl hle
  · exact .inr ⟨rest,rfl,(List.prefix_append_right_inj first).mp h⟩

/-- A prefix ends in the first entry, after its comma, or behind the separator. -/
theorem prefix_intercalate {e text : Text} {entries : List Text}
    (h : text <+: separator.intercalate (e :: entries)) :
    text <+: e ∨ (entries ≠ [] ∧ text = e ++ [',']) ∨
      ∃ rest, entries ≠ [] ∧ text = e ++ separator ++ rest ∧
        rest <+: separator.intercalate entries := by
  by_cases hne : entries = []
  · subst hne
    exact .inl (by simpa [List.intercalate] using h)
  · rw [intercalate_cons hne,List.append_assoc] at h
    rcases prefix_append_cases h with h | ⟨rest,rfl,hrest⟩
    · exact .inl h
    · change rest <+: ',' :: ' ' :: separator.intercalate entries at hrest
      rcases List.prefix_cons_iff.mp hrest with rfl | ⟨rest,rfl,hspace⟩
      · exact .inl (by simp)
      · rcases List.prefix_cons_iff.mp hspace with rfl | ⟨rest,rfl,hmore⟩
        · exact .inr (.inl ⟨hne,rfl⟩)
        · exact .inr (.inr ⟨rest,hne,by simp [separator],hmore⟩)

/-- However the joined entries are cut, the trimmed text shows the first few of them. -/
theorem trimmed_shows {entries : List Text} {text : Text}
    (h : text <+: separator.intercalate entries) (hne : trimEnd isWhitespace text ≠ []) :
    ∃ n, Shows entries n (trimEnd isWhitespace text) := by
  induction entries generalizing text with
  | nil =>
    have hnil : text = [] := by simpa [List.intercalate] using h
    subst hnil
    exact absurd rfl hne
  | cons e entries ih =>
    have hcomma : entries ≠ [] → Shows (e :: entries) 1 (e ++ [',']) := fun hmore =>
      .whole rfl (by simpa using List.length_pos_iff.mpr hmore)
    rcases prefix_intercalate h with h | ⟨hmore,rfl⟩ | ⟨rest,hmore,rfl,hrest⟩
    · exact ⟨1,.part rfl ((trimEnd_isPrefix text).trans h) hne⟩
    · rw [trimEnd_visible (by decide)]
      exact ⟨1,hcomma hmore⟩
    · by_cases hblank : trimEnd isWhitespace rest = []
      · have hcut : trimEnd isWhitespace (e ++ separator) = e ++ [','] := by
          have hspace : e ++ separator = (e ++ [',']) ++ [' '] := by simp [separator]
          rw [hspace,trimEnd_blank (by decide),trimEnd_visible (by decide)]
        rw [trimEnd_blank hblank,hcut]
        exact ⟨1,hcomma hmore⟩
      · obtain ⟨n,hshows⟩ := ih hrest hblank
        rw [trimEnd_append hblank]
        exact ⟨n+1,hshows.cons⟩

/-! ### What is counted -/

section Counting
variable {entries : List Text}

theorem count_before (hcomma : ∀ e ∈ entries, ',' ∉ e) {n : Nat} (hn : n ≤ entries.length) :
    (before entries n).count ',' = n := by
  induction entries generalizing n with
  | nil =>
    have hzero : n = 0 := by simpa using hn
    subst hzero
    rfl
  | cons e entries ih =>
    cases n with
    | zero => rfl
    | succ n =>
      have hrest := ih (fun f hf => hcomma f (List.mem_cons_of_mem _ hf)) (n := n) (by simpa using hn)
      have he : e.count ',' = 0 := List.count_eq_zero.mpr (hcomma e List.mem_cons_self)
      have hsep : separator.count ',' = 1 := by decide
      have hunfold : before (e :: entries) (n+1) = e ++ separator ++ before entries n := by
        simp [before]
      rw [hunfold,List.count_append,List.count_append,he,hsep,hrest]
      omega

/-- The commas tell how many entries are shown. -/
theorem Shows.count (hcomma : ∀ e ∈ entries, ',' ∉ e) {n : Nat} {text : Text}
    (h : Shows entries n text) : (stripComma text).count ','+1 = n := by
  cases h with
  | @part n e shown he hlead hne =>
    have hlt := (List.getElem?_eq_some_iff.mp he).1
    have hmem := hcomma e (List.mem_of_getElem? he)
    have hshown : ',' ∉ shown := fun hc => hmem (hlead.subset hc)
    have hlast : (before entries n ++ shown).getLast? ≠ some ',' := by
      rw [List.getLast?_append_of_ne_nil _ hne]
      exact fun hc => hshown (List.mem_of_getLast? hc)
    rw [stripComma,if_neg hlast,List.count_append,count_before hcomma hlt.le,
      List.count_eq_zero.mpr hshown,Nat.add_zero]
  | @whole n e he hmore =>
    have hlt := (List.getElem?_eq_some_iff.mp he).1
    have hmem := hcomma e (List.mem_of_getElem? he)
    rw [stripComma,if_pos (by simp),List.dropLast_concat,List.count_append,
      count_before hcomma hlt.le,List.count_eq_zero.mpr hmem,Nat.add_zero]

end Counting

/-- A cut text shows the first entries, within the limit but for one character, and says how many
are missing, or that the last one is not all there. -/
theorem truncated_shows {entries : List Text} {maxLen : Nat} {ch : Char} (hmax : 0 < maxLen)
    (hlong : maxLen < byteLen (separator.intercalate entries))
    (hcomma : ∀ e ∈ entries, ',' ∉ e) (hhead : (separator.intercalate entries).head? = some ch)
    (hvisible : isWhitespace ch = false) :
    ∃ n shown, Shows entries n shown ∧ byteLen shown ≤ maxLen+3 ∧
      truncateEnvChangesSummary (separator.intercalate entries) maxLen entries.length =
        appendTruncationSuffix shown n entries.length := by
  have hne : separator.intercalate entries ≠ [] := by
    intro hnil
    rw [hnil] at hhead
    cases hhead
  obtain ⟨kept,hkept,hlead,hlen,hbound⟩ := findPreferredCutPoint_cut hmax hne
  have htrim : trimEnd isWhitespace kept ≠ [] := by
    obtain ⟨rest,hrest⟩ := hlead
    cases kept with
    | nil => exact absurd rfl hkept
    | cons c kept =>
      have hc : c = ch := by
        rw [← hrest] at hhead
        simpa using hhead
      subst hc
      intro hblank
      have hall := List.rdropWhile_eq_nil_iff.mp hblank c List.mem_cons_self
      rw [hvisible] at hall
      cases hall
  obtain ⟨n,hshows⟩ := trimmed_shows hlead htrim
  refine ⟨n,_,hshows,?_,?_⟩
  · have hle := byteLen_le_of_prefix (trimEnd_isPrefix kept)
    omega
  · obtain ⟨rest,hrest⟩ := hlead
    have htake := takeWhile_charIndices 0 kept rest (Nat.zero_add _).symm
    rw [hrest,hlen] at htake
    unfold truncateEnvChangesSummary
    rw [if_neg (by omega)]
    dsimp only
    rw [htake,hshows.count hcomma]

theorem appendTruncationSuffix_fewer {shown : Text} {n count : Nat} (h : n < count) :
    ∃ sep, (sep = [] ∨ sep = separator) ∧ appendTruncationSuffix shown n count =
      shown ++ sep ++ ("+ ".toList ++ decimal (count-n) ++ " more".toList) := by
  unfold appendTruncationSuffix
  rw [if_pos h]
  dsimp only
  split
  · exact ⟨separator,.inr rfl,rfl⟩
  · exact ⟨[],.inl rfl,rfl⟩

theorem appendTruncationSuffix_all {shown : Text} (n : Nat) :
    shown <+: appendTruncationSuffix shown n n ∧ "...".toList <:+ appendTruncationSuffix shown n n := by
  unfold appendTruncationSuffix
  rw [if_neg (Nat.lt_irrefl n)]
  split
  · next h => exact ⟨List.prefix_rfl,h⟩
  · exact ⟨List.prefix_append _ _,List.suffix_append _ _⟩

theorem comma_notMem_entry {change : Bytes × Option Bytes} (h : ',' ∉ fromUtf8Lossy change.1) :
    ',' ∉ entry change := by
  cases hvalue : change.2 <;> simp [entry,hvalue,h]

def manyChanges : List (Bytes × Option Bytes) := List.replicate 60 (ascii "PGHOST",none)

end PgEmbedSetup.Env.Summary
