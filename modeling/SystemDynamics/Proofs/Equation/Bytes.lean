import SystemDynamics.Proofs.Equation.Lexeme

namespace SystemDynamics.Equation

open String (utf8EncodeChar)
open Text (head_dropWhile)

/-- The text after so many bytes, unless they end within a character. -/
def pastBytes? : Nat → List Char → Option (List Char)
  | 0, text => some text
  | _ + 1, [] => none
  | n + 1, c :: text =>
    if n + 1 < c.utf8Size then none else pastBytes? (n + 1 - c.utf8Size) text

/-- The text between two offsets in bytes, unless one of them is within a character. -/
def slice? (start stop : Nat) (text : List Char) : Option (List Char) := do
  let rest ← pastBytes? start text
  let after ← pastBytes? stop text
  if stop < start then none else return rest.take (rest.length - after.length)

def bytes (text : List Char) : List UInt8 :=
  text.flatMap utf8EncodeChar

def byteChar (b : UInt8) : Char :=
  Char.ofNat b.toNat

/-- The token at an offset, its text, and the number of bytes it covers. The text is cut out of the
source, and so is what a failure shows; there is no answer where a cut goes through a character. -/
def cutToken (source : List Char) (offset : Nat) (b : Char) (rest : List Char) :
    Option (Except Malformed (Token × List Char × Nat)) :=
  match readToken b rest with
  | .ok (token, length) =>
    (slice? offset (offset + length) source).map fun text ↦ .ok (token, text, length)
  | .error (.unexpectedCharacter _) =>
    (slice? offset (width source) source).map fun text ↦
      .error (.unexpectedCharacter (text.headD '?'))
  | .error cause =>
    -- Any other failure is one of a numeral, which is cut out before it is given a value.
    (slice? offset (offset + (numeral (b :: rest)).length) source).map fun text ↦
      match cause with
      | .numberOutOfRange _ => .error (.numberOutOfRange (String.ofList text))
      | cause => .error cause

/-- The lexemes of a source, from the bytes of it that are left. -/
def byteLexemes (source : List Char) :
    (covered offset : Nat) → List Char → Option (Except Fault (List Lexeme))
  | _, _, [] => some (.ok [])
  | covered + 1, offset, _ :: rest => byteLexemes source covered (offset + 1) rest
  | 0, offset, b :: rest =>
    if isSpace b then byteLexemes source 0 (offset + 1) rest
    else
      match cutToken source offset b rest with
      | none => none
      | some (.error cause) => some (.error (.malformed offset cause))
      | some (.ok (token, text, length)) => do
        let later ← byteLexemes source (length - 1) (offset + 1) rest
        return later.map (⟨token, text, offset⟩ :: ·)

def tokenizeBytes (source : String) : Option (Except Fault (List Lexeme)) :=
  byteLexemes source.toList 0 0 (source.toUTF8.data.toList.map byteChar)

theorem width_append (a b : List Char) : width (a ++ b) = width a + width b := by
  induction a with
  | nil => rw [List.nil_append, width, Nat.zero_add]
  | cons c a ih => rw [List.cons_append, width, ih, width, Nat.add_assoc]

theorem pastBytes?_width (before rest : List Char) :
    pastBytes? (width before) (before ++ rest) = some rest := by
  induction before with
  | nil => cases rest <;> rfl
  | cons c before ih =>
    obtain ⟨n, hn⟩ := Nat.exists_eq_add_of_lt c.utf8Size_pos
    have hwidth : width (c :: before) = n + width before + 1 := by
      rw [width, hn]
      omega
    rw [hwidth, List.cons_append, pastBytes?, if_neg (by omega),
      show n + width before + 1 - c.utf8Size = width before by omega, ih]

theorem slice?_append (before text after : List Char) :
    slice? (width before) (width before + width text) (before ++ (text ++ after)) = some text := by
  have hstop := pastBytes?_width (before ++ text) after
  rw [width_append, List.append_assoc] at hstop
  rw [slice?, pastBytes?_width, Option.bind_eq_bind, Option.bind_some, hstop]
  simp

theorem lt_of_continues {c : Char} (h : continues c = true) : c.toNat < 128 := by
  unfold continues continuesName Char.isAlphanum Char.isAlpha Char.isUpper Char.isLower
    Char.isDigit at h
  simp only [Bool.or_eq_true, Bool.and_eq_true, decide_eq_true_eq, beq_iff_eq,
    UInt32.le_iff_toNat_le, ge_iff_le] at h
  have hc : c.toNat = c.val.toNat := rfl
  have hZ : 'Z'.val.toNat = 90 := rfl
  have hz : 'z'.val.toNat = 122 := rfl
  have h9 : '9'.val.toNat = 57 := rfl
  rcases h with (((((h | rfl) | rfl) | rfl) | rfl) | rfl) | rfl
  case inl.inl.inl.inl.inl.inl => omega
  all_goals decide

theorem lt_of_mem_operatorSigns : ∀ c ∈ operatorSigns, c.toNat < 128 := by
  have hall : operatorSigns.all (·.toNat < 128) = true := by decide
  simpa using hall

theorem lt_of_isNumeric {c : Char} (h : isNumeric c = true) : c.toNat < 128 := by
  rw [isNumeric, Bool.or_eq_true, List.contains_iff_mem] at h
  rcases h with h | h
  · exact lt_of_continues (continues_of_continuesName (continuesName_of_isDigit h))
  · have hall : ['.', 'e', 'E', '+', '-'].all (·.toNat < 128) = true := by decide
    simpa using List.all_eq_true.mp hall c h

theorem Reading.lt {token : Token} {text after : List Char} (h : Reading token text after) :
    ∀ c ∈ text, c.toNat < 128 := by
  cases h with
  | number htext _ => exact fun c hc ↦ lt_of_isNumeric (htext c hc)
  | name htext _ => exact fun c hc ↦ lt_of_continues (continues_of_continuesName (htext c hc))
  | operator _ htext => exact fun c hc ↦ lt_of_mem_operatorSigns c (htext c hc)

theorem operator?_eq_none {c : Char} (h : c ∉ operatorSigns) (next : Option Char) :
    operator? c next = none := by
  cases hfound : operator? c next with
  | none => rfl
  | some found => exact absurd (operator?_eq_some hfound).2.1 h

theorem readToken_foreign {c : Char} (h : 128 ≤ c.toNat) (rest : List Char) :
    isSpace c = false ∧ continues c = false ∧
      readToken c rest = .error (.unexpectedCharacter c) := by
  have hspace : isSpace c = false := by
    by_contra hc
    rw [Bool.not_eq_false] at hc
    simp only [isSpace, Bool.or_eq_true, beq_iff_eq] at hc
    rcases hc with (((rfl | rfl) | rfl) | rfl) | rfl <;> exact absurd h (by decide)
  have hcontinues : continues c = false := by
    by_contra hc
    exact absurd (lt_of_continues (Bool.not_eq_false _ ▸ hc)) (by omega)
  have hdot : c ≠ '.' := by
    rintro rfl
    exact absurd h (by decide)
  have hsign : c ∉ operatorSigns := fun hc ↦ absurd (lt_of_mem_operatorSigns c hc) (by omega)
  refine ⟨hspace, hcontinues, ?_⟩
  simp [readToken, startsNumber, not_isDigit_of_not_continues hcontinues, hdot,
    not_startsName_of_not_continues hcontinues, operator?_eq_none hsign]

theorem toNat_byteChar (b : UInt8) : (byteChar b).toNat = b.toNat := by
  have hall : ∀ n < 256, (Char.ofNat n).toNat = n := by decide +kernel
  exact hall b.toNat b.toNat_lt

theorem utf8EncodeChar_plain {c : Char} (h : c.toNat < 128) :
    (utf8EncodeChar c).map byteChar = [c] ∧ c.utf8Size = 1 := by
  have hle : c.toNat ≤ 127 := Nat.le_of_lt_succ h
  refine ⟨?_, Char.utf8Size_eq_one_iff.mpr (UInt32.le_iff_toNat_le.mpr hle)⟩
  have hbyte : (UInt8.ofNat c.toNat).toNat = c.toNat := by
    rw [UInt8.toNat_ofNat']
    omega
  simp only [utf8EncodeChar, Char.toNat_val, hle, if_true, List.map_cons, List.map_nil, byteChar,
    hbyte, Char.ofNat_toNat]

theorem utf8EncodeChar_foreign {c : Char} (h : 128 ≤ c.toNat) :
    ∃ b bs, (utf8EncodeChar c).map byteChar = b :: bs ∧ 128 ≤ b.toNat := by
  have hle : ¬ c.val.toNat ≤ 127 := Nat.not_le_of_lt h
  have hlead : ∀ n, 128 ≤ n % 256 → 128 ≤ (byteChar (UInt8.ofNat n)).toNat := by
    intro n hn
    rwa [toNat_byteChar, UInt8.toNat_ofNat']
  rw [utf8EncodeChar]
  simp only [hle, if_false]
  split_ifs
  all_goals exact ⟨_, _, rfl, hlead _ (by omega)⟩

theorem map_bytes_cons (c : Char) (rest : List Char) :
    (bytes (c :: rest)).map byteChar =
      (utf8EncodeChar c).map byteChar ++ (bytes rest).map byteChar := by
  rw [bytes, List.flatMap_cons, List.map_append]
  rfl

theorem map_bytes_plain {text : List Char} (h : ∀ c ∈ text, c.toNat < 128) (after : List Char) :
    (bytes (text ++ after)).map byteChar = text ++ (bytes after).map byteChar := by
  induction text with
  | nil => rfl
  | cons c text ih =>
    rw [List.forall_mem_cons] at h
    rw [List.cons_append, map_bytes_cons, (utf8EncodeChar_plain h.1).1, ih h.2]
    rfl

theorem width_plain {text : List Char} (h : ∀ c ∈ text, c.toNat < 128) :
    width text = text.length := by
  induction text with
  | nil => rfl
  | cons c text ih =>
    rw [List.forall_mem_cons] at h
    rw [width, (utf8EncodeChar_plain h.1).2, ih h.2, List.length_cons, Nat.add_comm]

theorem apart_bytes {text : List Char} (h : Apart text) : Apart ((bytes text).map byteChar) := by
  cases text with
  | nil => exact h
  | cons c rest =>
    rw [map_bytes_cons]
    by_cases hc : c.toNat < 128
    · rw [(utf8EncodeChar_plain hc).1]
      exact h
    · obtain ⟨b, bs, hbytes, hb⟩ := utf8EncodeChar_foreign (Nat.le_of_not_lt hc)
      rw [hbytes, List.cons_append, apart_cons]
      exact (readToken_foreign hb []).2.1

theorem eq_bytes {α : Type} {f : List Char → α}
    (hf : ∀ text {after : List Char}, Apart after → f (text ++ after) = f text) (rest : List Char) :
    f ((bytes rest).map byteChar) = f rest := by
  have hplain : ∀ d ∈ rest.takeWhile continues, d.toNat < 128 :=
    fun d hd ↦ lt_of_continues (List.mem_takeWhile_imp hd)
  have hapart : Apart (rest.dropWhile continues) := head_dropWhile continues rest
  rw [← List.takeWhile_append_dropWhile (p := continues) (l := rest), map_bytes_plain hplain,
    hf _ (apart_bytes hapart), hf _ hapart]

theorem readToken_bytes (c : Char) (rest : List Char) :
    readToken c ((bytes rest).map byteChar) = readToken c rest :=
  eq_bytes (fun text _ h ↦ readToken_append h c text) rest

theorem numeral_bytes (c : Char) (rest : List Char) :
    numeral (c :: (bytes rest).map byteChar) = numeral (c :: rest) :=
  eq_bytes (f := fun rest ↦ numeral (c :: rest))
    (fun text _ h ↦ numeral_append h (c :: text)) rest

theorem readToken_unexpected {c d : Char} {rest : List Char}
    (h : readToken c rest = .error (.unexpectedCharacter d)) : d = c := by
  rw [readToken] at h
  split_ifs at h
  · simp only [readNumber] at h
    split at h
    case isTrue => simp at h
    case isFalse =>
      split at h
      case h_1 => simp at h
      case h_2 => split_ifs at h; simp at h
  · split at h <;> simp_all

theorem readToken_outOfRange {c : Char} {rest : List Char} {digits : String}
    (h : readToken c rest = .error (.numberOutOfRange digits)) :
    digits = String.ofList (numeral (c :: rest)) := by
  rw [readToken] at h
  split_ifs at h
  · simp only [readNumber] at h
    split at h
    case isTrue => simp at h
    case isFalse =>
      split at h
      case h_1 => simp at h
      case h_2 => split_ifs at h; simp_all
  · split at h <;> simp at h

theorem slice?_numeral (before : List Char) (c : Char) (rest : List Char) :
    slice? (width before) (width before + (numeral (c :: rest)).length) (before ++ c :: rest) =
      some (numeral (c :: rest)) := by
  obtain ⟨after, hafter⟩ := isPrefix_numeral (c :: rest)
  have hslice := slice?_append before (numeral (c :: rest)) after
  rwa [width_plain fun d hd ↦ lt_of_isNumeric (isNumeric_of_mem_numeral d hd), hafter] at hslice

theorem cutToken_eq (before : List Char) (c : Char) (rest : List Char) :
    cutToken (before ++ c :: rest) (width before) c ((bytes rest).map byteChar) =
      some ((readToken c rest).map fun (token, length) ↦
        (token, (c :: rest).take length, length)) := by
  rw [cutToken, readToken_bytes]
  cases hread : readToken c rest with
  | ok read =>
    obtain ⟨token, length⟩ := read
    obtain ⟨text, after, rfl, rfl, -, hreading⟩ := readToken_eq_ok hread
    have hslice := slice?_append before (c :: text) after
    rw [width_plain hreading.lt, List.length_cons] at hslice
    dsimp only
    rw [← List.cons_append, hslice, Except.map, ← List.length_cons (a := c), List.take_left]
    rfl
  | error cause =>
    cases cause with
    | unexpectedCharacter d =>
      obtain rfl := readToken_unexpected hread
      have hslice := slice?_append before (d :: rest) []
      rw [List.append_nil, ← width_append] at hslice
      dsimp only
      rw [hslice]
      rfl
    | numberOutOfRange digits =>
      obtain rfl := readToken_outOfRange hread
      dsimp only
      rw [numeral_bytes, slice?_numeral]
      rfl
    | _ =>
      dsimp only
      rw [numeral_bytes, slice?_numeral]
      rfl

theorem cutToken_foreign {b c : Char} (hb : 128 ≤ b.toNat) (before rest more : List Char) :
    cutToken (before ++ c :: rest) (width before) b more =
      some (.error (.unexpectedCharacter c)) := by
  have hslice := slice?_append before (c :: rest) []
  rw [List.append_nil, ← width_append] at hslice
  rw [cutToken, (readToken_foreign hb more).2.2]
  dsimp only
  rw [hslice]
  rfl

/-- The lexemes of the bytes are those of the characters, where the characters of the lexeme before
are of ASCII. -/
theorem byteLexemes_eq (covered : Nat) (before text : List Char)
    (h : ∀ c ∈ text.take covered, c.toNat < 128) :
    byteLexemes (before ++ text) covered (width before) ((bytes text).map byteChar) =
      some (lexemes covered (width before) text) := by
  induction text generalizing covered before with
  | nil => cases covered <;> rfl
  | cons c rest ih =>
    have hnext : ∀ covered, (∀ d ∈ rest.take covered, d.toNat < 128) → c.toNat < 128 →
        byteLexemes (before ++ c :: rest) covered (width before + 1) ((bytes rest).map byteChar) =
          some (lexemes covered (width before + c.utf8Size) rest) := by
      intro covered hcovered hc
      have hih := ih covered (before ++ [c]) hcovered
      rw [width_append, width, width, (utf8EncodeChar_plain hc).2, List.append_assoc] at hih
      rw [(utf8EncodeChar_plain hc).2]
      exact hih
    by_cases hc : c.toNat < 128
    case pos =>
      rw [map_bytes_cons, (utf8EncodeChar_plain hc).1, List.singleton_append]
      cases covered with
      | succ covered =>
        rw [byteLexemes, lexemes]
        exact hnext covered (fun d hd ↦ h d (List.mem_cons_of_mem c hd)) hc
      | zero =>
        rw [byteLexemes, lexemes, cutToken_eq]
        split
        case isTrue => exact hnext 0 (by simp) hc
        case isFalse =>
          cases hread : readToken c rest with
          | error cause => rfl
          | ok read =>
            obtain ⟨token, length⟩ := read
            obtain ⟨text, after, rfl, rfl, -, hreading⟩ := readToken_eq_ok hread
            have hplain : ∀ d ∈ (text ++ after).take (text.length + 1 - 1), d.toNat < 128 := by
              rw [Nat.add_sub_cancel, List.take_left]
              exact fun d hd ↦ hreading.lt d (List.mem_cons_of_mem c hd)
            dsimp only [Except.map]
            rw [hnext _ hplain hc]
            cases lexemes (text.length + 1 - 1) (width before + c.utf8Size) (text ++ after) <;> rfl
    case neg =>
      have hc := Nat.le_of_not_lt hc
      cases covered with
      | succ covered => exact absurd (h c (by simp)) (Nat.not_lt_of_le hc)
      | zero =>
        obtain ⟨b, bs, hbytes, hb⟩ := utf8EncodeChar_foreign hc
        rw [map_bytes_cons, hbytes, List.cons_append, byteLexemes, lexemes,
          cutToken_foreign hb, (readToken_foreign hb []).1, (readToken_foreign hc []).1,
          (readToken_foreign hc rest).2.2]
        rfl

theorem toUTF8_eq (source : String) : source.toUTF8.data.toList = bytes source.toList := by
  rw [String.toUTF8_eq_toByteArray, ← String.utf8Encode_toList, List.utf8Encode,
    List.data_toByteArray]
  rfl

theorem tokenizeBytes_eq (source : String) : tokenizeBytes source = some (tokenize source) := by
  rw [tokenizeBytes, toUTF8_eq]
  exact byteLexemes_eq 0 [] source.toList (by simp)

end SystemDynamics.Equation
