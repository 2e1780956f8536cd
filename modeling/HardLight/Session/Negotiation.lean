import HardLight.Session.Handshake

/-!
# What the two ends agree on

The numbers in the headers of the handshake, in decimal: the major version that both ends put in
`Sec-WebSocket-Protocol`, and the compression level in `X-HL-Compress`.

* `foldlM_pushDigit`, `parseU8_levelValue` : reading a number that was written in decimal;
* `hlVersion`, `hlVersion_inj` : versions are the same text exactly when they are the same number;
* `compressionOf_connectRequest` : the level the server settles on for a client's request.
-/

namespace HardLight

/-- `format!("hl/{}", major)`, on the server as in the client. -/
def hlVersion (major : Nat) : HeaderValue := ascii "hl/" ++ levelValue major

/-- The level the server settles on for a client with this one: `Compression::new` takes any number. -/
def negotiated (level : Nat) : Nat := if level ≤ 9 then level else defaultLevel

/-! ## Decimal numbers -/

theorem isDigit_iff {c : Char} : c.isDigit = true ↔ 48 ≤ c.toNat ∧ c.toNat ≤ 57 := by
  rw [Char.isDigit, Bool.and_eq_true, decide_eq_true_eq, decide_eq_true_eq, ge_iff_le, UInt32.le_iff_toNat_le,
    UInt32.le_iff_toNat_le]
  rfl

theorem levelValue_eq (n : Nat) : levelValue n = (Nat.toDigits 10 n).map fun c => c.toNat.toUInt8 := by
  rw [levelValue, ascii, Nat.toList_repr]

theorem isDigit_of_mem {n : Nat} {c : Char} (h : c ∈ Nat.toDigits 10 n) : c.isDigit = true :=
  Nat.isDigit_of_mem_toDigits (by decide) (by decide) h

theorem toNat_byte {c : Char} (h : c.isDigit = true) : c.toNat.toUInt8.toNat = c.toNat := by
  have hc := isDigit_iff.mp h
  rw [Nat.toUInt8, UInt8.toNat_ofNat']
  omega

theorem pushDigit_byte {c : Char} (h : c.isDigit = true) (n : Nat) :
    pushDigit n c.toNat.toUInt8 =
      if 10 * n + (c.toNat - 48) ≤ 255 then some (10 * n + (c.toNat - 48)) else none := by
  have hc := isDigit_iff.mp h
  have hrange : (48 : UInt8) ≤ c.toNat.toUInt8 ∧ c.toNat.toUInt8 ≤ 57 := by
    rw [UInt8.le_iff_toNat_le, UInt8.le_iff_toNat_le, toNat_byte h]
    exact hc
  rw [pushDigit, if_pos hrange, toNat_byte h, Nat.mul_comm]

/-- **Reading digits** is taking their value, up to 255. -/
theorem foldlM_pushDigit {cs : List Char} (hcs : ∀ c ∈ cs, c.isDigit = true) {n : Nat} (hn : n ≤ 255) :
    (cs.map fun c => c.toNat.toUInt8).foldlM pushDigit n =
      if Nat.ofDigitChars 10 cs n ≤ 255 then some (Nat.ofDigitChars 10 cs n) else none := by
  induction cs generalizing n with
  | nil => simp [hn]
  | cons c cs ih =>
    rw [List.map_cons, List.foldlM_cons, pushDigit_byte (hcs c List.mem_cons_self), Nat.ofDigitChars_cons]
    have hzero : '0'.toNat = 48 := rfl
    rw [hzero]
    by_cases hle : 10 * n + (c.toNat - 48) ≤ 255
    · rw [if_pos hle]
      exact ih (fun d hd => hcs d (List.mem_cons_of_mem c hd)) hle
    · -- the value only grows from here
      have hgrows : 10 * n + (c.toNat - 48) ≤ Nat.ofDigitChars 10 cs (10 * n + (c.toNat - 48)) := by
        rw [Nat.ofDigitChars_eq_ofDigitChars_zero]
        have hpow : 0 < 10 ^ cs.length := Nat.pow_pos (by decide)
        exact (Nat.le_mul_of_pos_left _ hpow).trans (Nat.le_add_right _ _)
      rw [if_neg hle, if_neg (by omega)]
      rfl

/-- **A number is read as it was written**, or is too big for a `u8`. -/
theorem parseU8_levelValue (n : Nat) : parseU8 (levelValue n) = if n ≤ 255 then some n else none := by
  have hread := foldlM_pushDigit (fun c hc => isDigit_of_mem (n := n) hc) (Nat.zero_le 255)
  rw [Nat.ofDigitChars_ten_toDigits] at hread
  rw [levelValue_eq, ← hread]
  cases hds : Nat.toDigits 10 n with
  | nil => exact absurd hds Nat.toDigits_ne_nil
  | cons c cs =>
    -- the first byte is a digit and no sign
    have hc : c.isDigit = true := isDigit_of_mem (n := n) (by rw [hds]; exact List.mem_cons_self)
    have hsign : c.toNat.toUInt8 ≠ 43 := by
      intro heq
      have htoNat := congrArg UInt8.toNat heq
      rw [toNat_byte hc] at htoNat
      have hrange := isDigit_iff.mp hc
      have : (43 : UInt8).toNat = 43 := rfl
      omega
    rw [List.map_cons, parseU8]
    · intro heq
      cases heq
    · intro heq
      exact hsign (List.cons.inj heq).1
    · intro digits heq
      exact hsign (List.cons.inj heq).1

theorem toStr_levelValue (n : Nat) : HeaderValue.toStr (levelValue n) = some (levelValue n) := by
  rw [HeaderValue.toStr, if_pos]
  rw [List.all_eq_true, levelValue_eq]
  intro b hb
  obtain ⟨c, hc, rfl⟩ := List.mem_map.mp hb
  have hrange := isDigit_iff.mp (isDigit_of_mem hc)
  rw [decide_eq_true_eq]
  refine Or.inl ⟨?_, ?_⟩
  · rw [UInt8.le_iff_toNat_le, toNat_byte (isDigit_of_mem hc)]
    have : (32 : UInt8).toNat = 32 := rfl
    omega
  · rw [UInt8.lt_iff_toNat_lt, toNat_byte (isDigit_of_mem hc)]
    have : (127 : UInt8).toNat = 127 := rfl
    omega

theorem levelValue_inj {m n : Nat} : levelValue m = levelValue n ↔ m = n := by
  refine ⟨fun h => ?_, fun h => by rw [h]⟩
  have hback (k : Nat) : (levelValue k).map (fun b => Char.ofNat b.toNat) = Nat.toDigits 10 k := by
    rw [levelValue_eq, List.map_map]
    conv_rhs => rw [← List.map_id (Nat.toDigits 10 k)]
    refine List.map_congr_left fun c hc => ?_
    rw [Function.comp_apply, toNat_byte (isDigit_of_mem hc), Char.ofNat_toNat, id_eq]
  have hdigits := (hback m).symm.trans ((congrArg _ h).trans (hback n))
  rw [← Nat.ofDigitChars_ten_toDigits (n := m), hdigits, Nat.ofDigitChars_ten_toDigits]

/-! ## What is agreed on -/

/-- **Versions are the same text exactly when they are the same number.** -/
theorem hlVersion_inj {major major' : Nat} : hlVersion major = hlVersion major' ↔ major = major' := by
  rw [hlVersion, hlVersion, List.append_cancel_left_eq, levelValue_inj]

/-- **The level of a client's request.** -/
theorem compressionOf_connectRequest (host key version : HeaderValue) (level : Nat) :
    compressionOf (connectRequest host key version level).headers = negotiated level := by
  rw [compressionOf, connectRequest_compress, Option.bind_some, toStr_levelValue, Option.bind_some,
    parseU8_levelValue, negotiated]
  by_cases hlevel : level ≤ 9
  · rw [if_pos (by omega), if_pos hlevel]
    rw [Option.filter_some, if_pos (decide_eq_true hlevel)]
    rfl
  · rw [if_neg hlevel]
    split
    · rw [Option.filter_some, if_neg (by simpa using hlevel)]
      rfl
    · rfl

end HardLight
