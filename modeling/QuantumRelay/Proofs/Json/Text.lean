import QuantumRelay.Proofs.Decimal.Shortest
import QuantumRelay.Proofs.Decimal.Written

/-!
# What a text says

The text of a value is read back as `Json.printed` of the value (`read?_compact`): as the value itself,
but for numbers that are not finite, in whose place `null` stands. Strings may have any characters. Whole
numbers have to fit in 64 bits and values must not be nested too deep (`Json.Fits`).
-/

namespace QuantumRelay.Json

/-! ### Strings -/

theorem escape_ne_nil (c : Char) : escape c ≠ [] := by
  unfold escape
  repeat' split
  all_goals simp

theorem readUnicode_control {c : Char} (h : c.toNat < 0x20) (rest : List Char) :
    readUnicode ('0' :: '0' :: (c.toNat / 16).digitChar :: (c.toNat % 16).digitChar :: rest) =
      some (some c, rest) := by
  have hhex : readHex4 ('0' :: '0' :: (c.toNat / 16).digitChar :: (c.toNat % 16).digitChar :: rest) =
      some (c.toNat, rest) := by
    have hzero : Digit.value? '0' = some 0 := rfl
    simp only [readHex4, hzero, Digit.value?_digitChar (show c.toNat / 16 < 16 by omega),
      Digit.value?_digitChar (show c.toNat % 16 < 16 by omega), Option.bind_eq_bind,
      Option.bind_some, Option.some.injEq, Prod.mk.injEq, and_true]
    omega
  have hleading : isLeading c.toNat = false := by
    simp [isLeading]
    omega
  have htrailing : isTrailing c.toNat = false := by
    simp [isTrailing]
    omega
  simp [readUnicode, hhex, hleading, htrailing, Char.ofNat_toNat]

theorem readChars_escape (c : Char) (fuel : Nat) (paired : Bool) (acc rest : List Char) :
    readChars (fuel + 1) paired acc (escape c ++ rest) = readChars fuel paired (c :: acc) rest := by
  unfold escape
  split
  · next h => subst h; rfl
  split
  · next h => subst h; rfl
  split
  · next h => subst h; rfl
  split
  · next h => subst h; rfl
  split
  · next h => subst h; rfl
  split
  · next h => subst h; rfl
  split
  · next h => subst h; rfl
  split
  · next h =>
    simp only [List.cons_append, List.nil_append, readChars]
    rw [readUnicode_control h]
  · next hquote hslash _ _ _ _ _ hcontrol =>
    rw [List.singleton_append, readChars]
    · rw [if_neg (by simp [hcontrol, hslash])]
    · exact hquote
    · rintro rest' heq
      exact absurd heq hslash
    · rintro c' rest' heq
      exact absurd heq hslash

theorem readChars_flatMap (cs : List Char) (fuel : Nat) (paired : Bool) (acc rest : List Char) :
    readChars (cs.length + fuel) paired acc (cs.flatMap escape ++ rest) =
      readChars fuel paired (cs.reverse ++ acc) rest := by
  induction cs generalizing acc with
  | nil => simp
  | cons c cs ih =>
    rw [List.length_cons, Nat.add_right_comm, List.flatMap_cons, List.append_assoc, readChars_escape,
      ih, List.reverse_cons, List.append_assoc, List.singleton_append]

theorem length_le_length_flatMap (cs : List Char) : cs.length ≤ (cs.flatMap escape).length := by
  induction cs with
  | nil => simp
  | cons c cs ih =>
    have hpos := List.length_pos_iff.2 (escape_ne_nil c)
    rw [List.flatMap_cons, List.length_append, List.length_cons]
    omega

theorem readString_escape (s : String) (rest : List Char) :
    readString (s.toList.flatMap escape ++ '"' :: rest) = some (some s, rest) := by
  have hlength := length_le_length_flatMap s.toList
  obtain ⟨fuel, hfuel⟩ : ∃ fuel,
      (s.toList.flatMap escape ++ '"' :: rest).length + 1 = s.toList.length + (fuel + 1) := by
    refine ⟨(s.toList.flatMap escape ++ '"' :: rest).length - s.toList.length, ?_⟩
    rw [List.length_append]
    omega
  unfold readString
  rw [hfuel, readChars_flatMap]
  simp [readChars]

/-! ### Single values -/

theorem skipBlanks_cons {c : Char} (h : isBlank c = false) (cs : List Char) :
    skipBlanks (c :: cs) = c :: cs := by
  rw [skipBlanks, List.dropWhile_cons_of_neg (by simp [h])]

theorem isBlank_of_isDecimal {c : Char} (h : Digit.isDecimal c = true) : isBlank c = false := by
  cases hblank : isBlank c with
  | false => rfl
  | true =>
    simp only [isBlank, Bool.or_eq_true, decide_eq_true_eq, or_assoc] at hblank
    rcases hblank with rfl | rfl | rfl | rfl <;> exact absurd h (by decide)

theorem readValue_digit {c : Char} (h : Digit.isDecimal c = true) (fuel depth : Nat)
    (cs : List Char) : readValue (fuel + 1) depth (c :: cs) = readMagnitude false (c :: cs) := by
  have hne (d : Char) (hd : Digit.isDecimal d = false) : c ≠ d := by
    rintro rfl
    rw [h] at hd
    cases hd
  rw [readValue, skipBlanks_cons (isBlank_of_isDecimal h)]
  split
  · next heq => cases heq
  · next heq => exact absurd (List.cons_eq_cons.1 heq).1 (hne _ (by decide))
  · next heq => exact absurd (List.cons_eq_cons.1 heq).1 (hne _ (by decide))
  · next heq => exact absurd (List.cons_eq_cons.1 heq).1 (hne _ (by decide))
  · next heq => exact absurd (List.cons_eq_cons.1 heq).1 (hne _ (by decide))
  · next heq =>
    obtain ⟨rfl, rfl⟩ := List.cons_eq_cons.1 heq
    rw [if_pos h]

theorem readValue_numeral {n : Numeral} (hn : n.Valid) (negative : Bool) (fuel depth : Nat)
    {rest : List Char} (hrest : Ends rest) :
    readValue (fuel + 1) depth ((if negative then '-' :: n.chars else n.chars) ++ rest) =
      some (if n.isWhole then wholeValue negative (Decimal.ofDigits n.whole)
        else signed negative n.decimal.toFloat, rest) := by
  rw [← readMagnitude_numeral hn negative hrest]
  cases negative with
  | true => rfl
  | false =>
    have hne : n.whole ≠ [] := by
      rcases hn.whole with h | h
      · simp [h]
      · exact h.1
    obtain ⟨c, cs, hc⟩ := List.exists_cons_of_ne_nil hne
    have hdigit : Digit.isDecimal c = true := hn.wholeDigits c (by simp [hc])
    rw [if_neg (by decide), Numeral.chars, hc]
    exact readValue_digit hdigit fuel depth _

/-- Whole numbers that are read back: those of 64 bits, with or without a sign. -/
def IsWord (n : Int) : Prop := -9223372036854775808 ≤ n ∧ n < 18446744073709551616

theorem intChars_eq (n : Int) :
    intChars n = if decide (n < 0) then '-' :: Numeral.chars ⟨Decimal.digitChars n.natAbs, [], none⟩
      else Numeral.chars ⟨Decimal.digitChars n.natAbs, [], none⟩ := by
  simp [intChars, Numeral.chars, Numeral.exponentChars]

theorem readValue_intChars {n : Int} (h : IsWord n) (fuel depth : Nat) {rest : List Char}
    (hrest : Ends rest) :
    readValue (fuel + 1) depth (intChars n ++ rest) = some (.int n, rest) := by
  obtain ⟨hlow, hhigh⟩ := h
  have hread := readValue_numeral (valid_digitChars n.natAbs) (decide (n < 0)) fuel depth hrest
  rw [intChars_eq, hread]
  show some (wholeValue _ (Decimal.ofDigits (Decimal.digitChars n.natAbs)), rest) = _
  rw [Decimal.ofDigits_digitChars, wholeValue]
  have hsize : UInt64.size = 18446744073709551616 := rfl
  by_cases hneg : n < 0
  · rw [decide_eq_true hneg, if_pos rfl, if_pos (by simp [hsize]; omega)]
    congr 3
    omega
  · rw [decide_eq_false hneg, if_neg (by decide), if_pos (by omega)]
    congr 3
    omega

def floatNumeral (x : Float) : Numeral :=
  if (Binary.ofFloat x).mantissa = 0 then ⟨['0'], ['0'], none⟩
  else (Decimal.shortest (Binary.ofFloat x)).numeral floatStyle

theorem floatChars_eq {x : Float} (h : x.isFinite = true) :
    floatChars x = if Binary.isNegative x then '-' :: (floatNumeral x).chars
      else (floatNumeral x).chars := by
  rw [floatChars, if_pos h, Decimal.writtenFloat, floatNumeral]
  by_cases hzero : (Binary.ofFloat x).mantissa = 0
  · simp only [if_pos hzero]
    rfl
  · simp only [if_neg hzero, Decimal.written_eq]

theorem valid_floatNumeral {x : Float} (h : x.isFinite = true) : (floatNumeral x).Valid := by
  unfold floatNumeral
  split
  · exact ⟨.inl rfl, Decimal.allDigits_zeros 1, Decimal.allDigits_zeros 1⟩
  · next hm =>
    exact Decimal.valid_numeral _ (Decimal.shortest_ne_zero (Decimal.sound_ofFloat h hm))

theorem toFloat_floatNumeral {x : Float} (h : x.isFinite = true) :
    signed (Binary.isNegative x) (floatNumeral x).decimal.toFloat = .float x := by
  unfold floatNumeral
  split
  · next hm =>
    have hzero : (Numeral.decimal ⟨['0'], ['0'], none⟩).toFloat = 0 := rfl
    rw [hzero, signed, if_pos (by rfl), ← Binary64.eq_zero_of_magnitude hm]
  · next hm =>
    have hvalue : ((Decimal.shortest (Binary.ofFloat x)).numeral floatStyle).decimal.value =
        (Decimal.shortest (Binary.ofFloat x)).value := Decimal.value_numeral ..
    obtain ⟨hfinite, hread⟩ := Decimal.signed_toFloat h hm hvalue
    rw [signed, if_pos hfinite, hread]

theorem isWhole_floatNumeral (x : Float) : (floatNumeral x).isWhole = false := by
  unfold floatNumeral
  split
  · rfl
  · exact Decimal.isWhole_numeral _ _

theorem readValue_floatChars {x : Float} (h : x.isFinite = true) (fuel depth : Nat)
    {rest : List Char} (hrest : Ends rest) :
    readValue (fuel + 1) depth (floatChars x ++ rest) = some (.float x, rest) := by
  rw [floatChars_eq h, readValue_numeral (valid_floatNumeral h) _ fuel depth hrest,
    isWhole_floatNumeral, if_neg (by decide), toFloat_floatNumeral h]

/-! ### Lists and objects -/

mutual

/-- What the text of a value says. It has no words for numbers that are not finite. -/
def printed : Json → Json
  | .float x => if x.isFinite then .float x else .null
  | .unreadable => .null
  | .array items => .array (printedItems items)
  | .object members => .object (printedMembers members)
  | j => j

def printedItems : List Json → List Json
  | [] => []
  | j :: rest => j.printed :: printedItems rest

def printedMembers : List (String × Json) → List (String × Json)
  | [] => []
  | (key, j) :: rest => (key, j.printed) :: printedMembers rest

end

mutual

/-- Whether a value inside so many lists and objects can be told by a text. -/
def Fits (depth : Nat) : Json → Prop
  | .int n => IsWord n
  | .array items => depth < maxDepth ∧ FitsItems (depth + 1) items
  | .object members => depth < maxDepth ∧ FitsMembers (depth + 1) members
  | _ => True

def FitsItems (depth : Nat) : List Json → Prop
  | [] => True
  | j :: rest => j.Fits depth ∧ FitsItems depth rest

def FitsMembers (depth : Nat) : List (String × Json) → Prop
  | [] => True
  | (_, j) :: rest => j.Fits depth ∧ FitsMembers depth rest

end

theorem Numeral.Valid.exists_chars {n : Numeral} (h : n.Valid) :
    ∃ c cs, n.chars = c :: cs ∧ Digit.isDecimal c = true := by
  have hne : n.whole ≠ [] := by
    rcases h.whole with hzero | ⟨hne, -⟩
    · simp [hzero]
    · exact hne
  obtain ⟨c, cs, hc⟩ := List.exists_cons_of_ne_nil hne
  refine ⟨c, _, by rw [chars, hc]; rfl, h.wholeDigits c (by simp [hc])⟩

/-- What a text starts with when it goes on with a value. -/
def Starts (cs : List Char) : Prop := ∃ c rest, cs = c :: rest ∧ isBlank c = false ∧ c ≠ ']'

theorem Starts.append {cs : List Char} (h : Starts cs) (more : List Char) :
    Starts (cs ++ more) := by
  obtain ⟨c, rest, rfl, hc⟩ := h
  exact ⟨c, rest ++ more, rfl, hc⟩

theorem starts_signed {n : Numeral} (h : n.Valid) (negative : Bool) :
    Starts (if negative then '-' :: n.chars else n.chars) := by
  cases negative with
  | true => exact ⟨'-', n.chars, rfl, by decide, by decide⟩
  | false =>
    obtain ⟨c, cs, hcs, hdigit⟩ := h.exists_chars
    refine ⟨c, cs, hcs, isBlank_of_isDecimal hdigit, ?_⟩
    rintro rfl
    exact absurd hdigit (by decide)

theorem starts_chars (j : Json) : Starts j.chars := by
  match j with
  | .null | .unreadable => exact ⟨'n', _, rfl, by decide, by decide⟩
  | .bool true => exact ⟨'t', _, rfl, by decide, by decide⟩
  | .bool false => exact ⟨'f', _, rfl, by decide, by decide⟩
  | .text s => exact ⟨'"', _, rfl, by decide, by decide⟩
  | .array items => exact ⟨'[', _, rfl, by decide, by decide⟩
  | .object members => exact ⟨'\x7b', _, rfl, by decide, by decide⟩
  | .int n =>
    rw [chars, intChars_eq]
    exact starts_signed (valid_digitChars n.natAbs) _
  | .float x =>
    rw [chars]
    by_cases h : x.isFinite = true
    · rw [floatChars_eq h]
      exact starts_signed (valid_floatNumeral h) _
    · rw [floatChars, if_neg h]
      exact ⟨'n', _, rfl, by decide, by decide⟩

theorem readValue_array {fuel depth : Nat} {cs rest : List Char} {items : List Json}
    (hdepth : depth < maxDepth) (hstart : Starts cs)
    (hread : readItems fuel (depth + 1) cs = some (items, rest)) :
    readValue (fuel + 1) depth ('[' :: cs) = some (.array items, rest) := by
  obtain ⟨c, cs, rfl, hblank, hne⟩ := hstart
  rw [readValue, skipBlanks_cons (by decide)]
  simp only [skipBlanks_cons hblank]
  split
  · next heq => exact absurd (List.cons_eq_cons.1 heq).1 hne
  · rw [hread, Option.map_some, if_pos hdepth]

theorem readValue_object {fuel depth : Nat} {cs rest : List Char} {members : List (String × Json)}
    (hdepth : depth < maxDepth)
    (hread : readMembers fuel (depth + 1) ('"' :: cs) = some (some members, rest)) :
    readValue (fuel + 1) depth ('\x7b' :: '"' :: cs) = some (.object members, rest) := by
  rw [readValue, skipBlanks_cons (by decide)]
  simp only [skipBlanks_cons (show isBlank '"' = false by decide)]
  show (readMembers fuel (depth + 1) ('"' :: cs)).map _ = _
  rw [hread, Option.map_some]
  simp only [if_pos hdepth]

theorem readMembers_first {fuel depth : Nat} (key : String) (cs : List Char) :
    readMembers (fuel + 1) depth (quoted key ++ ':' :: cs) =
      match readValue fuel depth cs with
      | none => none
      | some (value, rest) =>
        match skipBlanks rest with
        | '\x7d' :: rest => some (some [(key, value)], rest)
        | ',' :: rest => (readMembers fuel depth rest).map fun (members, rest) =>
            (match some key, members with
              | some key, some members => some ((key, value) :: members)
              | _, _ => none, rest)
        | _ => none := by
  have htext : quoted key ++ ':' :: cs =
      '"' :: (key.toList.flatMap escape ++ '"' :: ':' :: cs) := by
    simp [quoted]
  rw [htext, readMembers]
  simp only [skipBlanks_cons (show isBlank '"' = false by decide), readString_escape,
    skipBlanks_cons (show isBlank ':' = false by decide)]
  rfl

/-- With so much fuel, values that fit are read up to their end. -/
def ReadsValues (fuel : Nat) : Prop :=
  ∀ (j : Json) (depth : Nat) (rest : List Char), j.Fits depth → j.chars.length < fuel → Ends rest →
    readValue fuel depth (j.chars ++ rest) = some (j.printed, rest)

def ReadsItems (fuel : Nat) : Prop :=
  ∀ (items : List Json) (depth : Nat) (rest : List Char), items ≠ [] → FitsItems depth items →
    (charsItems items).length < fuel →
    readItems fuel depth (charsItems items ++ rest) = some (printedItems items, rest)

/-- With so much fuel, members are read up to the end of their object. -/
def ReadsMembers (fuel : Nat) : Prop :=
  ∀ (members : List (String × Json)) (depth : Nat) (rest : List Char), members ≠ [] →
    FitsMembers depth members → (charsMembers members).length < fuel →
    readMembers fuel depth (charsMembers members ++ rest) = some (some (printedMembers members), rest)

theorem starts_charsItems {items : List Json} (h : items ≠ []) : Starts (charsItems items) := by
  match items with
  | [] => exact absurd rfl h
  | [j] => exact (starts_chars j).append _
  | j :: _ :: _ => exact (starts_chars j).append _

theorem exists_charsMembers {members : List (String × Json)} (h : members ≠ []) :
    ∃ cs, charsMembers members = '"' :: cs := by
  match members with
  | [] => exact absurd rfl h
  | [(key, j)] => exact ⟨_, rfl⟩
  | (key, j) :: _ :: _ => exact ⟨_, rfl⟩

theorem readsValues_succ {fuel : Nat} (hitems : ReadsItems fuel) (hmembers : ReadsMembers fuel) :
    ReadsValues (fuel + 1) := by
  intro j depth rest h hfuel hrest
  cases j with
  | null => rfl
  | unreadable => rfl
  | bool b => cases b <;> rfl
  | int n => exact readValue_intChars h fuel depth hrest
  | float x =>
    rw [chars, printed]
    by_cases hfinite : x.isFinite = true
    · rw [if_pos hfinite, readValue_floatChars hfinite fuel depth hrest]
    · rw [if_neg hfinite, floatChars, if_neg hfinite]
      rfl
  | text s =>
    have htext : quoted s ++ rest = '"' :: (s.toList.flatMap escape ++ '"' :: rest) := by
      simp [quoted]
    rw [chars, htext, readValue, skipBlanks_cons (by decide)]
    simp only [readString_escape]
    rfl
  | array items =>
    rw [Fits] at h
    rw [chars, List.length_cons] at hfuel
    by_cases hne : items = []
    · subst hne
      show some (if depth < maxDepth then Json.array [] else _, rest) = _
      rw [if_pos h.1]
      rfl
    · exact readValue_array h.1 ((starts_charsItems hne).append rest)
        (hitems items (depth + 1) rest hne h.2 (by omega))
  | object members =>
    rw [Fits] at h
    rw [chars, List.length_cons] at hfuel
    by_cases hne : members = []
    · subst hne
      show some (if depth < maxDepth then Json.object [] else _, rest) = _
      rw [if_pos h.1]
      rfl
    · have hread := hmembers members (depth + 1) rest hne h.2 (by omega)
      obtain ⟨cs, hcs⟩ := exists_charsMembers hne
      rw [hcs] at hread
      rw [chars, hcs]
      exact readValue_object h.1 hread

theorem readsItems_succ {fuel : Nat} (hvalues : ReadsValues fuel) (hitems : ReadsItems fuel) :
    ReadsItems (fuel + 1) := by
  intro items depth rest hne h hfuel
  match items, hne with
  | [j], _ =>
    rw [charsItems, List.length_append, List.length_singleton] at hfuel
    have hvalue := hvalues j depth (']' :: rest) h.1 (by omega) (ends_cons (by simp))
    rw [charsItems, List.append_assoc, List.singleton_append, readItems, hvalue]
    rfl
  | j :: next :: more, _ =>
    simp only [charsItems, List.length_append, List.length_cons] at hfuel
    have hvalue := hvalues j depth (',' :: (charsItems (next :: more) ++ rest)) h.1 (by omega)
      (ends_cons (by simp))
    have hmore := hitems (next :: more) depth rest (List.cons_ne_nil _ _) h.2 (by omega)
    simp only [charsItems, List.append_assoc, List.cons_append, readItems, hvalue,
      skipBlanks_cons (show isBlank ',' = false by decide), hmore]
    rfl

theorem readsMembers_succ {fuel : Nat} (hvalues : ReadsValues fuel)
    (hmembers : ReadsMembers fuel) : ReadsMembers (fuel + 1) := by
  intro members depth rest hne h hfuel
  match members, hne with
  | [(key, j)], _ =>
    simp only [charsMembers, List.length_append, List.length_cons] at hfuel
    have hvalue := hvalues j depth ('\x7d' :: rest) h.1 (by omega) (ends_cons (by simp))
    simp only [charsMembers, List.append_assoc, List.cons_append, List.nil_append,
      readMembers_first, hvalue]
    rfl
  | (key, j) :: next :: more, _ =>
    simp only [charsMembers, List.length_append, List.length_cons] at hfuel
    have hvalue := hvalues j depth (',' :: (charsMembers (next :: more) ++ rest)) h.1 (by omega)
      (ends_cons (by simp))
    have hmore := hmembers (next :: more) depth rest (List.cons_ne_nil _ _) h.2 (by omega)
    simp only [charsMembers, List.append_assoc, List.cons_append, readMembers_first, hvalue,
      skipBlanks_cons (show isBlank ',' = false by decide), hmore]
    rfl

theorem reads_chars (fuel : Nat) : ReadsValues fuel ∧ ReadsItems fuel ∧ ReadsMembers fuel := by
  induction fuel with
  | zero =>
    refine ⟨?_, ?_, ?_⟩
    · intro j depth rest _ hfuel
      omega
    · intro items depth rest _ _ hfuel
      omega
    · intro members depth rest _ _ hfuel
      omega
  | succ fuel ih =>
    obtain ⟨hvalues, hitems, hmembers⟩ := ih
    exact ⟨readsValues_succ hitems hmembers, readsItems_succ hvalues hitems,
      readsMembers_succ hvalues hmembers⟩

/-- The text of a value is read back as what it says. -/
theorem read?_compact {j : Json} (h : j.Fits 0) : read? j.compact = some j.printed := by
  have hread := (reads_chars (j.chars.length + 1)).1 j 0 [] h (by omega) ends_nil
  rw [List.append_nil] at hread
  rw [read?, compact, String.toList_ofList]
  simp only [hread]
  rfl

end QuantumRelay.Json
