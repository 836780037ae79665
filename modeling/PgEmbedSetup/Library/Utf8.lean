import PgEmbedSetup.Library.Text

set_option autoImplicit false

/-!
Decoding and encoding UTF-8 are inverse to each other.
-/

namespace PgEmbedSetup.Library

theorem toNat_ofNat {n : Nat} (h : n.isValidChar) : (Char.ofNat n).toNat = n := by
  have hof : Char.ofNat n = Char.ofNatAux n h := dif_pos h
  rw [hof]
  rfl

theorem toNat_bounds (c : Char) : c.toNat < 0xD800 ∨ 0xDFFF < c.toNat ∧ c.toNat < 0x110000 := c.valid

/-! ### Bytes of a character -/

theorem encode_one {c : Char} (h : c.toNat ≤ 0x7F) :
    String.utf8EncodeChar c = [UInt8.ofNat c.toNat] := if_pos h

theorem encode_two {c : Char} (hlo : 0x7F < c.toNat) (hhi : c.toNat ≤ 0x7FF) :
    String.utf8EncodeChar c =
      [UInt8.ofNat (c.toNat/64%32+0xC0),UInt8.ofNat (c.toNat%64+0x80)] :=
  (if_neg (Nat.not_le.mpr hlo)).trans (if_pos hhi)

theorem encode_three {c : Char} (hlo : 0x7FF < c.toNat) (hhi : c.toNat ≤ 0xFFFF) :
    String.utf8EncodeChar c =
      [UInt8.ofNat (c.toNat/4096%16+0xE0),UInt8.ofNat (c.toNat/64%64+0x80),
        UInt8.ofNat (c.toNat%64+0x80)] :=
  have hone : ¬ c.toNat ≤ 0x7F := by omega
  (if_neg hone).trans ((if_neg (Nat.not_le.mpr hlo)).trans (if_pos hhi))

theorem encode_four {c : Char} (hlo : 0xFFFF < c.toNat) :
    String.utf8EncodeChar c =
      [UInt8.ofNat (c.toNat/262144%8+0xF0),UInt8.ofNat (c.toNat/4096%64+0x80),
        UInt8.ofNat (c.toNat/64%64+0x80),UInt8.ofNat (c.toNat%64+0x80)] :=
  have hone : ¬ c.toNat ≤ 0x7F := by omega
  have htwo : ¬ c.toNat ≤ 0x7FF := by omega
  (if_neg hone).trans ((if_neg htwo).trans (if_neg (Nat.not_le.mpr hlo)))

/-! ### Reading what was written -/

/-- A first byte is read by the range it lies in. -/
theorem startByte_ofNat {n : Nat} (h : n < 256) :
    startByte (UInt8.ofNat n) =
      if n < 0x80 then .char (Char.ofNat n)
      else if 0xC2 ≤ n ∧ n ≤ 0xDF then .wait (.more 1 (n-0xC0) 0x80 0xBF)
      else if n = 0xE0 then .wait (.more 2 0 0xA0 0xBF)
      else if n = 0xED then .wait (.more 2 0xD 0x80 0x9F)
      else if 0xE1 ≤ n ∧ n ≤ 0xEF then .wait (.more 2 (n-0xE0) 0x80 0xBF)
      else if n = 0xF0 then .wait (.more 3 0 0x90 0xBF)
      else if 0xF1 ≤ n ∧ n ≤ 0xF3 then .wait (.more 3 (n-0xF0) 0x80 0xBF)
      else if n = 0xF4 then .wait (.more 3 4 0x80 0x8F)
      else .invalid := by
  have hn : (UInt8.ofNat n).toNat = n := by
    rw [UInt8.toNat_ofNat']
    omega
  simp only [startByte,UInt8.lt_iff_toNat_lt,UInt8.le_iff_toNat_le,← UInt8.toNat_inj,hn,
    UInt8.reduceToNat]

theorem nextByte_ofNat {left value n : Nat} {lo hi : UInt8} (h : n < 256) (hlo : lo.toNat ≤ n)
    (hhi : n ≤ hi.toNat) :
    nextByte (.more left value lo hi) (UInt8.ofNat n) =
      if left ≤ 1 then .char (Char.ofNat (value*64+(n-0x80)))
      else .wait (.more (left-1) (value*64+(n-0x80)) 0x80 0xBF) := by
  have hn : (UInt8.ofNat n).toNat = n := by
    rw [UInt8.toNat_ofNat']
    omega
  have hin : lo ≤ UInt8.ofNat n ∧ UInt8.ofNat n ≤ hi := by
    rw [UInt8.le_iff_toNat_le,UInt8.le_iff_toNat_le,hn]
    exact ⟨hlo,hhi⟩
  rw [nextByte,if_pos hin,hn]

theorem decodeFrom_char {s : Utf8State} {b : UInt8} {c : Char} (rest : Bytes)
    (h : nextByte s b = .char c) :
    decodeFrom s (b :: rest) = (decodeFrom .start rest).map (c :: ·) := by
  rw [decodeFrom,h]

theorem decodeFrom_wait {s t : Utf8State} {b : UInt8} (rest : Bytes)
    (h : nextByte s b = .wait t) : decodeFrom s (b :: rest) = decodeFrom t rest := by
  rw [decodeFrom,h]

/-- The last byte of a sequence, and the last two. -/
theorem decodeFrom_last {value n : Nat} {lo hi : UInt8} {c : Char} (rest : Bytes)
    (hlo : lo.toNat ≤ n) (hhi : n ≤ hi.toNat) (hc : value*64+(n-0x80) = c.toNat) :
    decodeFrom (.more 1 value lo hi) (UInt8.ofNat n :: rest) =
      (decodeFrom .start rest).map (c :: ·) := by
  have hn : n < 256 := hhi.trans_lt hi.toNat_lt
  refine decodeFrom_char rest ?_
  rw [nextByte_ofNat hn hlo hhi,if_pos (Nat.le_refl 1),hc,Char.ofNat_toNat]

theorem decodeFrom_more {left value n : Nat} {lo hi : UInt8} (rest : Bytes)
    (hlo : lo.toNat ≤ n) (hhi : n ≤ hi.toNat) :
    decodeFrom (.more (left+2) value lo hi) (UInt8.ofNat n :: rest) =
      decodeFrom (.more (left+1) (value*64+(n-0x80)) 0x80 0xBF) rest := by
  have hn : n < 256 := hhi.trans_lt hi.toNat_lt
  refine decodeFrom_wait rest ?_
  rw [nextByte_ofNat hn hlo hhi,if_neg (by omega)]
  rfl

/-- The second byte of three keeps out what two bytes can write, and the surrogates. -/
theorem startByte_three (lead : Nat) (hlead : lead < 16) :
    ∃ lo hi, nextByte .start (UInt8.ofNat (lead+0xE0)) = .wait (.more 2 lead lo hi) ∧
      ∀ next, lo.toNat ≤ next ∧ next ≤ hi.toNat ↔ 0x80 ≤ next ∧ next ≤ 0xBF ∧
        (lead = 0 → 0xA0 ≤ next) ∧ (lead = 13 → next ≤ 0x9F) := by
  rw [nextByte,startByte_ofNat (by omega),if_neg (by omega),if_neg (by omega)]
  by_cases hfirst : lead = 0
  · subst hfirst
    exact ⟨0xA0,0xBF,rfl,fun next => by simp; omega⟩
  rw [if_neg (by omega)]
  by_cases hthirteen : lead = 13
  · subst hthirteen
    exact ⟨0x80,0x9F,rfl,fun next => by simp; omega⟩
  · rw [if_neg (by omega),if_pos (by omega),Nat.add_sub_cancel]
    exact ⟨0x80,0xBF,rfl,fun next => by simp [hfirst,hthirteen]⟩

/-- The second byte of four keeps out what three bytes can write, and what is no code point. -/
theorem startByte_four (lead : Nat) (hlead : lead < 5) :
    ∃ lo hi, nextByte .start (UInt8.ofNat (lead+0xF0)) = .wait (.more 3 lead lo hi) ∧
      ∀ next, lo.toNat ≤ next ∧ next ≤ hi.toNat ↔ 0x80 ≤ next ∧ next ≤ 0xBF ∧
        (lead = 0 → 0x90 ≤ next) ∧ (lead = 4 → next ≤ 0x8F) := by
  rw [nextByte,startByte_ofNat (by omega),if_neg (by omega),if_neg (by omega),if_neg (by omega),
    if_neg (by omega),if_neg (by omega)]
  by_cases hfirst : lead = 0
  · subst hfirst
    exact ⟨0x90,0xBF,rfl,fun next => by simp; omega⟩
  rw [if_neg (by omega)]
  by_cases hfour : lead = 4
  · subst hfour
    exact ⟨0x80,0x8F,rfl,fun next => by simp; omega⟩
  · rw [if_pos (by omega),Nat.add_sub_cancel]
    exact ⟨0x80,0xBF,rfl,fun next => by simp [hfirst,hfour]⟩

theorem decodeFrom_encode_char (c : Char) (rest : Bytes) :
    decodeFrom .start (String.utf8EncodeChar c ++ rest) =
      (decodeFrom .start rest).map (c :: ·) := by
  have hc := toNat_bounds c
  by_cases hone : c.toNat ≤ 0x7F
  · rw [encode_one hone,List.singleton_append]
    refine decodeFrom_char rest ?_
    rw [nextByte,startByte_ofNat (by omega),if_pos (by omega),Char.ofNat_toNat]
  by_cases htwo : c.toNat ≤ 0x7FF
  · rw [encode_two (by omega) htwo,List.cons_append,List.singleton_append]
    have hfirst : nextByte .start (UInt8.ofNat (c.toNat/64%32+0xC0)) =
        .wait (.more 1 (c.toNat/64%32+0xC0-0xC0) 0x80 0xBF) := by
      rw [nextByte,startByte_ofNat (by omega),if_neg (by omega),if_pos (by omega)]
    rw [decodeFrom_wait _ hfirst]
    exact decodeFrom_last rest (by simp) (by simp; omega) (by omega)
  by_cases hthree : c.toNat ≤ 0xFFFF
  · rw [encode_three (by omega) hthree,List.cons_append,List.cons_append,List.singleton_append]
    obtain ⟨lo,hi,hfirst,hrange⟩ := startByte_three (c.toNat/4096%16) (by omega)
    obtain ⟨hlo,hhi⟩ := (hrange (c.toNat/64%64+0x80)).mpr (by omega)
    rw [decodeFrom_wait _ hfirst,decodeFrom_more _ hlo hhi]
    exact decodeFrom_last rest (by simp) (by simp; omega) (by omega)
  · rw [encode_four (by omega),List.cons_append,List.cons_append,List.cons_append,
      List.singleton_append]
    obtain ⟨lo,hi,hfirst,hrange⟩ := startByte_four (c.toNat/262144%8) (by omega)
    obtain ⟨hlo,hhi⟩ := (hrange (c.toNat/4096%64+0x80)).mpr (by omega)
    rw [decodeFrom_wait _ hfirst,decodeFrom_more _ hlo hhi,
      decodeFrom_more _ (by simp) (by simp; omega)]
    exact decodeFrom_last rest (by simp) (by simp; omega) (by omega)

theorem decodeUtf8_encodeUtf8 (text : Text) : decodeUtf8 (encodeUtf8 text) = some text := by
  induction text with
  | nil => rfl
  | cons c text ih =>
    rw [encodeUtf8,List.flatMap_cons,← encodeUtf8,decodeUtf8,decodeFrom_encode_char,← decodeUtf8,ih]
    rfl

/-! ### Writing what was read -/

theorem decodeFrom_more_inv {left value : Nat} {lo hi : UInt8} {bytes : Bytes} {text : Text}
    (h : decodeFrom (.more left value lo hi) bytes = some text) :
    ∃ n rest, bytes = UInt8.ofNat n :: rest ∧ n < 256 ∧ lo.toNat ≤ n ∧ n ≤ hi.toNat := by
  cases bytes with
  | nil => cases h
  | cons b rest =>
    rw [decodeFrom] at h
    by_cases hin : lo ≤ b ∧ b ≤ hi
    · rw [UInt8.le_iff_toNat_le,UInt8.le_iff_toNat_le] at hin
      exact ⟨b.toNat,rest,by rw [UInt8.ofNat_toNat],b.toNat_lt,hin.1,hin.2⟩
    · rw [nextByte,if_neg hin] at h
      cases h

theorem decodeFrom_last_inv {value : Nat} {lo hi : UInt8} {bytes : Bytes} {text : Text}
    (h : decodeFrom (.more 1 value lo hi) bytes = some text) :
    ∃ n rest text', bytes = UInt8.ofNat n :: rest ∧ lo.toNat ≤ n ∧ n ≤ hi.toNat ∧
      text = Char.ofNat (value*64+(n-0x80)) :: text' ∧ decodeFrom .start rest = some text' := by
  obtain ⟨n,rest,rfl,hn,hlo,hhi⟩ := decodeFrom_more_inv h
  have hlast : nextByte (.more 1 value lo hi) (UInt8.ofNat n) =
      .char (Char.ofNat (value*64+(n-0x80))) := by
    rw [nextByte_ofNat hn hlo hhi,if_pos (Nat.le_refl 1)]
  rw [decodeFrom_char rest hlast] at h
  obtain ⟨text',htext,rfl⟩ := Option.map_eq_some_iff.mp h
  exact ⟨n,rest,text',rfl,hlo,hhi,rfl,htext⟩

theorem decodeFrom_next_inv {left value : Nat} {lo hi : UInt8} {bytes : Bytes} {text : Text}
    (h : decodeFrom (.more (left+2) value lo hi) bytes = some text) :
    ∃ n rest, bytes = UInt8.ofNat n :: rest ∧ lo.toNat ≤ n ∧ n ≤ hi.toNat ∧
      decodeFrom (.more (left+1) (value*64+(n-0x80)) 0x80 0xBF) rest = some text := by
  obtain ⟨n,rest,rfl,-,hlo,hhi⟩ := decodeFrom_more_inv h
  rw [decodeFrom_more rest hlo hhi] at h
  exact ⟨n,rest,rfl,hlo,hhi,h⟩

/-- What is read first is a whole character. -/
theorem decodeFrom_start_inv {b : UInt8} {rest : Bytes} {text : Text}
    (h : decodeFrom .start (b :: rest) = some text) :
    ∃ c rest' text', b :: rest = String.utf8EncodeChar c ++ rest' ∧ text = c :: text' ∧
      decodeFrom .start rest' = some text' := by
  obtain ⟨n,hn,rfl⟩ : ∃ n < 256, UInt8.ofNat n = b := ⟨b.toNat,b.toNat_lt,UInt8.ofNat_toNat⟩
  by_cases hone : n < 0x80
  · have hchar : nextByte .start (UInt8.ofNat n) = .char (Char.ofNat n) := by
      rw [nextByte,startByte_ofNat hn,if_pos hone]
    have hvalue : (Char.ofNat n).toNat = n := toNat_ofNat (.inl (by omega))
    rw [decodeFrom_char rest hchar] at h
    obtain ⟨text',htext,rfl⟩ := Option.map_eq_some_iff.mp h
    refine ⟨Char.ofNat n,rest,text',?_,rfl,htext⟩
    rw [encode_one (by omega),hvalue]
    rfl
  by_cases htwo : 0xC2 ≤ n ∧ n ≤ 0xDF
  · have hwait : nextByte .start (UInt8.ofNat n) = .wait (.more 1 (n-0xC0) 0x80 0xBF) := by
      rw [nextByte,startByte_ofNat hn,if_neg hone,if_pos htwo]
    rw [decodeFrom_wait rest hwait] at h
    obtain ⟨m,rest',text',rfl,hlo,hhi,rfl,htext⟩ := decodeFrom_last_inv h
    simp only [UInt8.reduceToNat] at hlo hhi
    have hvalue := toNat_ofNat (n := (n-0xC0)*64+(m-0x80)) (.inl (by omega))
    refine ⟨_,rest',text',?_,rfl,htext⟩
    have hfirst : ((n-0xC0)*64+(m-0x80))/64%32+0xC0 = n := by omega
    have hlast : ((n-0xC0)*64+(m-0x80))%64+0x80 = m := by omega
    rw [encode_two (by omega) (by omega),hvalue,hfirst,hlast]
    rfl
  by_cases hthree : 0xE0 ≤ n ∧ n ≤ 0xEF
  · obtain ⟨lo,hi,hwait,hrange⟩ := startByte_three (n-0xE0) (by omega)
    rw [Nat.sub_add_cancel hthree.1] at hwait
    rw [decodeFrom_wait rest hwait] at h
    obtain ⟨k,rest₁,rfl,hk,hk',h₁⟩ := decodeFrom_next_inv h
    obtain ⟨m,rest',text',rfl,hlo,hhi,rfl,htext⟩ := decodeFrom_last_inv h₁
    obtain ⟨hk,hk',hshort,hsurrogate⟩ := (hrange k).mp ⟨hk,hk'⟩
    simp only [UInt8.reduceToNat] at hlo hhi
    have hvalue := toNat_ofNat (n := ((n-0xE0)*64+(k-0x80))*64+(m-0x80))
      (by rw [Nat.isValidChar]; omega)
    refine ⟨_,rest',text',?_,rfl,htext⟩
    have hfirst : (((n-0xE0)*64+(k-0x80))*64+(m-0x80))/4096%16+0xE0 = n := by omega
    have hsecond : (((n-0xE0)*64+(k-0x80))*64+(m-0x80))/64%64+0x80 = k := by omega
    have hlast : (((n-0xE0)*64+(k-0x80))*64+(m-0x80))%64+0x80 = m := by omega
    rw [encode_three (by omega) (by omega),hvalue,hfirst,hsecond,hlast]
    rfl
  by_cases hfour : 0xF0 ≤ n ∧ n ≤ 0xF4
  · obtain ⟨lo,hi,hwait,hrange⟩ := startByte_four (n-0xF0) (by omega)
    rw [Nat.sub_add_cancel hfour.1] at hwait
    rw [decodeFrom_wait rest hwait] at h
    obtain ⟨k,rest₁,rfl,hk,hk',h₁⟩ := decodeFrom_next_inv h
    obtain ⟨l,rest₂,rfl,hl,hl',h₂⟩ := decodeFrom_next_inv h₁
    obtain ⟨m,rest',text',rfl,hlo,hhi,rfl,htext⟩ := decodeFrom_last_inv h₂
    obtain ⟨hk,hk',hshort,hlong⟩ := (hrange k).mp ⟨hk,hk'⟩
    simp only [UInt8.reduceToNat] at hl hl' hlo hhi
    have hvalue := toNat_ofNat (n := (((n-0xF0)*64+(k-0x80))*64+(l-0x80))*64+(m-0x80))
      (by rw [Nat.isValidChar]; omega)
    refine ⟨_,rest',text',?_,rfl,htext⟩
    have hfirst : ((((n-0xF0)*64+(k-0x80))*64+(l-0x80))*64+(m-0x80))/262144%8+0xF0 = n := by omega
    have hsecond : ((((n-0xF0)*64+(k-0x80))*64+(l-0x80))*64+(m-0x80))/4096%64+0x80 = k := by omega
    have hthird : ((((n-0xF0)*64+(k-0x80))*64+(l-0x80))*64+(m-0x80))/64%64+0x80 = l := by omega
    have hlast : ((((n-0xF0)*64+(k-0x80))*64+(l-0x80))*64+(m-0x80))%64+0x80 = m := by omega
    rw [encode_four (by omega),hvalue,hfirst,hsecond,hthird,hlast]
    rfl
  · have hinvalid : nextByte .start (UInt8.ofNat n) = .invalid := by
      rw [nextByte,startByte_ofNat hn,if_neg hone,if_neg htwo,if_neg (by omega),if_neg (by omega),
        if_neg (by omega),if_neg (by omega),if_neg (by omega),if_neg (by omega)]
    rw [decodeFrom,hinvalid] at h
    cases h

/-- Only the text's own bytes decode to it. -/
theorem encodeUtf8_of_decodeUtf8 {bytes : Bytes} {text : Text}
    (h : decodeUtf8 bytes = some text) : encodeUtf8 text = bytes := by
  induction text generalizing bytes with
  | nil =>
    cases bytes with
    | nil => rfl
    | cons b rest =>
      obtain ⟨c,rest',text',-,htext,-⟩ := decodeFrom_start_inv h
      cases htext
  | cons c text ih =>
    cases bytes with
    | nil => cases h
    | cons b rest =>
      obtain ⟨c',rest',text',hbytes,htext,hrest⟩ := decodeFrom_start_inv h
      cases htext
      rw [encodeUtf8,List.flatMap_cons,← encodeUtf8,ih hrest,hbytes]

theorem encodeUtf8_append (first second : Text) :
    encodeUtf8 (first ++ second) = encodeUtf8 first ++ encodeUtf8 second :=
  List.flatMap_append

theorem encodeUtf8_injective {first second : Text} (h : encodeUtf8 first = encodeUtf8 second) :
    first = second := by
  have hfirst := decodeUtf8_encodeUtf8 first
  rw [h,decodeUtf8_encodeUtf8] at hfirst
  exact (Option.some.inj hfirst).symm

/-! ### Lossy reading -/

theorem lossyFrom_char {s : Utf8State} {b : UInt8} {c : Char} (rest : Bytes)
    (h : nextByte s b = .char c) : lossyFrom s (b :: rest) = c :: lossyFrom .start rest := by
  cases s <;> simp only [lossyFrom,h]

theorem lossyFrom_wait {s t : Utf8State} {b : UInt8} (rest : Bytes)
    (h : nextByte s b = .wait t) : lossyFrom s (b :: rest) = lossyFrom t rest := by
  cases s <;> simp only [lossyFrom,h]

theorem lossyFrom_invalid {s : Utf8State} {b : UInt8} (rest : Bytes)
    (h : nextByte s b = .invalid) : replacement ∈ lossyFrom s (b :: rest) := by
  cases s with
  | start => simp only [lossyFrom,h,List.mem_cons_self]
  | more left value lo hi =>
    cases hstart : startByte b <;> simp only [lossyFrom,h,hstart,List.mem_cons_self]

theorem lossyFrom_of_decodeFrom {s : Utf8State} {bytes : Bytes} {text : Text}
    (h : decodeFrom s bytes = some text) : lossyFrom s bytes = text := by
  induction bytes generalizing s text with
  | nil =>
    cases s with
    | start => exact Option.some.inj h
    | more left value lo hi => cases h
  | cons b rest ih =>
    cases hstep : nextByte s b with
    | char c =>
      rw [decodeFrom_char rest hstep] at h
      obtain ⟨tail,htail,rfl⟩ := Option.map_eq_some_iff.mp h
      rw [lossyFrom_char rest hstep,ih htail]
    | wait t =>
      rw [decodeFrom_wait rest hstep] at h
      rw [lossyFrom_wait rest hstep,ih h]
    | invalid =>
      rw [decodeFrom,hstep] at h
      cases h

/-- What is not UTF-8 leaves its mark. -/
theorem replacement_mem_lossyFrom {s : Utf8State} {bytes : Bytes}
    (h : decodeFrom s bytes = none) : replacement ∈ lossyFrom s bytes := by
  induction bytes generalizing s with
  | nil =>
    cases s with
    | start => cases h
    | more left value lo hi => exact List.mem_cons_self
  | cons b rest ih =>
    cases hstep : nextByte s b with
    | char c =>
      rw [decodeFrom_char rest hstep,Option.map_eq_none_iff] at h
      rw [lossyFrom_char rest hstep]
      exact List.mem_cons_of_mem c (ih h)
    | wait t =>
      rw [decodeFrom_wait rest hstep] at h
      rw [lossyFrom_wait rest hstep]
      exact ih h
    | invalid => exact lossyFrom_invalid rest hstep

theorem fromUtf8Lossy_ascii {bytes : Bytes} (h : ∀ c ∈ fromUtf8Lossy bytes, c.toNat < 128) :
    decodeUtf8 bytes = some (fromUtf8Lossy bytes) := by
  cases hdecoded : decodeUtf8 bytes with
  | none => exact absurd (h replacement (replacement_mem_lossyFrom hdecoded)) (by decide)
  | some text => rw [fromUtf8Lossy,lossyFrom_of_decodeFrom hdecoded]

theorem fromUtf8Lossy_encodeUtf8 (text : Text) : fromUtf8Lossy (encodeUtf8 text) = text :=
  lossyFrom_of_decodeFrom (decodeUtf8_encodeUtf8 text)

end PgEmbedSetup.Library
