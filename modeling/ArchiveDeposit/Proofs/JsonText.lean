import ArchiveDeposit.Json.Printer
import ArchiveDeposit.Persisted.Decoder
import ArchiveDeposit.Proofs.Digits

/-!
# Printed values are read again

The printed text of a value is read as the tree of the value, whatever stands behind it that does
not go on with a number.  The reader skips blanks wherever it may, so what is said of it is said up
to the blanks in front: that they are skipped is all that the indentation of the text comes to.

Numbers that are no integers are left out, and so are the integers that the reader does not keep;
what is stored has neither.

**Results.**
* `exists_unit`: a character of a string is read as it was escaped.
* `readNumber_toString`: an integer is read as it was printed.
* `Plain.reads`: a value is read as it was printed, at any level of indentation.
* `decodeText_pretty`: decoding a printed value is decoding the value.
-/

namespace ArchiveDeposit

section JsonText

namespace Json

open Text

/-- The values whose printed text is read as the value: their numbers are integers that are kept. -/
inductive Plain : Json → Prop
  | null : Plain .null
  | bool (b : Bool) : Plain (.bool b)
  | integer {n : Int} (low : integerRange.1 ≤ n) (high : n ≤ integerRange.2) : Plain (.integer n)
  | string (s : String) : Plain (.string s)
  | array {items : List Json} (h : ∀ j ∈ items, Plain j) : Plain (.array items)
  | object {fields : List (String × Json)} (h : ∀ f ∈ fields, Plain f.2) : Plain (.object fields)

theorem joinUnits_inr {n : Nat} (hn : n < 0xd800) (units : List (Char ⊕ Nat)) :
    joinUnits (.inr n :: units) = (joinUnits units).map (Char.ofNat n :: ·) := by
  have hhigh : ¬ (0xd800 ≤ n ∧ n < 0xdc00) := by omega
  have hlow : ¬ (0xdc00 ≤ n ∧ n < 0xe000) := by omega
  have hhalf : ¬ (0xd800 ≤ n ∧ n < 0xe000) := by omega
  rcases units with _ | ⟨_ | low, units⟩
  · simp only [joinUnits, if_neg hhalf]
  · simp only [joinUnits, if_neg hhalf]
  · simp only [joinUnits, if_neg hhigh, if_neg hlow]

/-- The digits of a control character in base sixteen. -/
theorem hexQuad?_hexPair {n : Nat} (hn : n < 0x20) :
    hexQuad? '0' '0' (Nat.digitChar (n / 16 % 16)) (Nat.digitChar (n % 16)) = some n := by
  decide +revert

/-- A character is escaped by a letter or by its number, or it stands for itself. -/
theorem escape_cases (c : Char) :
    (∃ e, e ≠ 'u' ∧ shortEscape? e = some c ∧ escape c = ['\\', e]) ∨
      (c.toNat < 0x20 ∧ escape c = ['\\', 'u', '0', '0'] ++ hexPair c.toNat) ∨
      (c ≠ '"' ∧ c ≠ '\\' ∧ ¬ c.toNat < 0x20 ∧ escape c = [c]) := by
  unfold escape
  split
  · next h => exact .inl ⟨'"', by decide, congrArg some h.symm, rfl⟩
  split
  · next h => exact .inl ⟨'\\', by decide, congrArg some h.symm, rfl⟩
  split
  · next h => exact .inl ⟨'b', by decide, congrArg some h.symm, rfl⟩
  split
  · next h => exact .inl ⟨'f', by decide, congrArg some h.symm, rfl⟩
  split
  · next h => exact .inl ⟨'n', by decide, congrArg some h.symm, rfl⟩
  split
  · next h => exact .inl ⟨'r', by decide, congrArg some h.symm, rfl⟩
  split
  · next h => exact .inl ⟨'t', by decide, congrArg some h.symm, rfl⟩
  split
  · next h => exact .inr (.inl ⟨h, rfl⟩)
  · next hquote hslash _ _ _ _ _ h => exact .inr (.inr ⟨hquote, hslash, h, rfl⟩)

/-- A letter behind a backslash is read as what it stands for. -/
theorem readUnits_short {c e : Char} (hne : e ≠ 'u') (he : shortEscape? e = some c)
    (cs : List Char) :
    readUnits ('\\' :: e :: cs) = (readUnits cs).map fun p => (.inl c :: p.1, p.2) := by
  rw [readUnits.eq_def]
  split
  · next h => simp at h
  · next h => exact absurd (List.cons.inj (List.cons.inj h).2).1 hne
  · next h =>
      obtain ⟨rfl, rfl⟩ := List.cons.inj (List.cons.inj h).2
      rw [he]
      cases readUnits cs <;> rfl
  · next hother h =>
      obtain ⟨hslash, hrest⟩ := List.cons.inj h
      exact absurd hrest.symm (hother e cs hslash.symm)
  · next h => cases h

/-- A character that stands for itself is read as such. -/
theorem readUnits_self {c : Char} (hquote : c ≠ '"') (hslash : c ≠ '\\') (hc : ¬ c.toNat < 0x20)
    (cs : List Char) :
    readUnits (c :: cs) = (readUnits cs).map fun p => (.inl c :: p.1, p.2) := by
  rw [readUnits.eq_def]
  split
  · next h => exact absurd (List.cons.inj h).1 hquote
  · next h => exact absurd (List.cons.inj h).1 hslash
  · next h => exact absurd (List.cons.inj h).1 hslash
  · next h =>
      obtain ⟨rfl, rfl⟩ := List.cons.inj h
      rw [if_neg hc]
      cases readUnits cs <;> rfl
  · next h => cases h

/-- A control character that is written in digits. -/
theorem readUnits_hexPair {n : Nat} (hn : n < 0x20) (cs : List Char) :
    readUnits (['\\', 'u', '0', '0'] ++ hexPair n ++ cs) =
      (readUnits cs).map fun p => (.inr n :: p.1, p.2) := by
  simp only [hexPair, List.cons_append, List.nil_append, readUnits, hexQuad?_hexPair hn]
  cases readUnits cs <;> rfl

/-- A character of a string is read as it was escaped. -/
theorem exists_unit (c : Char) : ∃ unit,
    (∀ cs, readUnits (escape c ++ cs) = (readUnits cs).map fun p => (unit :: p.1, p.2)) ∧
      ∀ units, joinUnits (unit :: units) = (joinUnits units).map (c :: ·) := by
  rcases escape_cases c with ⟨e, hne, he, hescape⟩ | ⟨hc, hescape⟩ | ⟨hquote, hslash, hc, hescape⟩
  · rw [hescape]
    exact ⟨.inl c, readUnits_short hne he, fun _ => rfl⟩
  · rw [hescape]
    refine ⟨.inr c.toNat, readUnits_hexPair hc, fun units => ?_⟩
    rw [joinUnits_inr (Nat.lt_trans hc (by decide)), Char.ofNat_toNat]
  · rw [hescape]
    exact ⟨.inl c, readUnits_self hquote hslash hc, fun _ => rfl⟩

/-- The inside of a string is read as it was escaped, up to the quote behind it. -/
theorem exists_units (s rest : List Char) :
    ∃ units, readUnits (s.flatMap escape ++ '"' :: rest) = some (units, rest) ∧
      joinUnits units = some s := by
  induction s with
  | nil => exact ⟨[], by rw [List.flatMap_nil, List.nil_append, readUnits], rfl⟩
  | cons c s ih =>
      obtain ⟨units, hread, hjoin⟩ := ih
      obtain ⟨unit, hunit, hstands⟩ := exists_unit c
      refine ⟨unit :: units, ?_, ?_⟩
      · rw [List.flatMap_cons, List.append_assoc, hunit, hread, Option.map_some]
      · rw [hstands, hjoin, Option.map_some]

theorem toList_quoted (s : String) :
    (quoted s).toList = '"' :: (s.toList.flatMap escape ++ ['"']) :=
  String.toList_ofList

/-- A string is read as it was printed. -/
theorem readUnits_quoted (s : String) (rest : List Char) : ∃ units,
    readUnits (s.toList.flatMap escape ++ '"' :: rest) = some (units, rest) ∧
      stringOf units = some s := by
  obtain ⟨units, hread, hjoin⟩ := exists_units s.toList rest
  refine ⟨units, hread, ?_⟩
  rw [stringOf, hjoin, Option.map_some, String.ofList_toList]

/-- Whether a text does not go on with a number. -/
def EndsNumber (rest : List Char) : Prop :=
  ∀ c ∈ rest.head?, isDigit c = false ∧ c ≠ '.' ∧ c ≠ 'e' ∧ c ≠ 'E'

theorem endsNumber_cons {c : Char} {cs : List Char}
    (h : isDigit c = false ∧ c ≠ '.' ∧ c ≠ 'e' ∧ c ≠ 'E') : EndsNumber (c :: cs) :=
  fun _ hd => Option.some.inj hd ▸ h

theorem endsNumber_nil : EndsNumber [] := fun _ hd => nomatch hd

theorem EndsNumber.endsDigits {rest : List Char} (h : EndsNumber rest) : EndsDigits rest :=
  fun c hc => (h c hc).1

theorem readNumberFraction_of_endsNumber {rest : List Char} (h : EndsNumber rest) :
    readNumberFraction rest = some ([], rest) := by
  unfold readNumberFraction
  split
  · exact absurd rfl (h '.' rfl).2.1
  · rfl

theorem readExponent_of_endsNumber {rest : List Char} (h : EndsNumber rest) :
    readExponent rest = some ([], rest) := by
  cases rest with
  | nil => rfl
  | cons c cs =>
      obtain ⟨_, _, he, hE⟩ := h c rfl
      exact if_neg (not_or.mpr ⟨he, hE⟩)

/-- The digits of a number are read up to where the number ends. -/
theorem readUnsigned_toDigits (negative : Bool) (n : Nat) {rest : List Char}
    (hrest : EndsNumber rest) :
    readUnsigned negative (Nat.toDigits 10 n ++ rest) =
      some (ofDigits negative (Nat.toDigits 10 n), rest) := by
  have hdigits := isDigit_of_mem_toDigits n
  have hrun : readDigitRun (Nat.toDigits 10 n ++ rest) = some (Nat.toDigits 10 n, rest) := by
    simp only [readDigitRun, takeWhile_isDigit_append hdigits hrest.endsDigits,
      dropWhile_isDigit_append hdigits hrest.endsDigits,
      List.isEmpty_eq_false_iff.mpr Nat.toDigits_ne_nil, Bool.false_eq_true, if_false]
  have hfront : ¬ ((Nat.toDigits 10 n).head? = some '0' ∧ (Nat.toDigits 10 n).length ≠ 1) := by
    rintro ⟨hzero, hlength⟩
    rw [head?_toDigits_eq_zero hzero] at hlength
    exact hlength (by decide)
  simp only [readUnsigned, hrun, Option.bind_eq_bind, Option.bind_some, if_neg hfront,
    readNumberFraction_of_endsNumber hrest, readExponent_of_endsNumber hrest, List.isEmpty_nil,
    Bool.and_self, if_true]
  rfl

/-- An integer that is kept is read as it was printed. -/
theorem readNumber_toString {n : Int} (hlow : integerRange.1 ≤ n) (hhigh : n ≤ integerRange.2)
    {rest : List Char} (hrest : EndsNumber rest) :
    readNumber ((toString n).toList ++ rest) = some (.integer n, rest) := by
  cases n with
  | ofNat m =>
      have htext : (toString (Int.ofNat m)).toList = Nat.toDigits 10 m := Nat.toList_repr
      have hvalue : ofDigits false (Nat.toDigits 10 m) = .integer (Int.ofNat m) := by
        simp only [ofDigits, decimalValue_toDigits, Bool.false_eq_true, false_and, if_false]
        exact if_pos ⟨hlow, hhigh⟩
      rw [htext, ← hvalue, ← readUnsigned_toDigits false m hrest]
      have hminus : ∀ cs, Nat.toDigits 10 m ++ rest ≠ '-' :: cs := fun cs h =>
        absurd (isDigit_of_append_eq_cons (isDigit_of_mem_toDigits m) Nat.toDigits_ne_nil h)
          (by decide)
      exact readNumber.eq_2 _ hminus
  | negSucc m =>
      have htext : (toString (Int.negSucc m)).toList = '-' :: Nat.toDigits 10 (m + 1) := by
        show ("-" ++ Nat.repr (m + 1)).toList = _
        rw [String.toList_append, Nat.toList_repr]
        rfl
      have hvalue : ofDigits true (Nat.toDigits 10 (m + 1)) = .integer (Int.negSucc m) := by
        simp only [ofDigits, decimalValue_toDigits, if_true]
        rw [if_neg (by omega)]
        exact if_pos ⟨hlow, hhigh⟩
      rw [htext, ← hvalue, ← readUnsigned_toDigits true (m + 1) hrest]
      rfl

theorem skipBlanks_cons {c : Char} (h : isJsonBlank c = false) (cs : List Char) :
    skipBlanks (c :: cs) = c :: cs :=
  List.dropWhile_cons_of_neg (by simp [h])

/-- The indentation of a line is skipped. -/
theorem skipBlanks_newline (level : Nat) (cs : List Char) :
    skipBlanks ((newline level).toList ++ cs) = skipBlanks cs := by
  have hblank : ∀ c ∈ '\n' :: List.replicate (2 * level) ' ', isJsonBlank c = true := by
    intro c hc
    rcases List.mem_cons.mp hc with rfl | hspace
    · decide
    · rw [List.eq_of_mem_replicate hspace]
      decide
  rw [newline, String.toList_ofList]
  exact List.dropWhile_append_of_pos hblank

theorem endsNumber_newline (level : Nat) (cs : List Char) :
    EndsNumber ((newline level).toList ++ cs) := by
  rw [newline, String.toList_ofList]
  exact endsNumber_cons (by decide)

theorem length_newline (level : Nat) : 1 ≤ (newline level).toList.length := by
  rw [newline, String.toList_ofList, List.length_cons]
  omega

/-- Whether a text may be that of a value in an array: it begins neither with a blank nor with the
closing bracket. -/
def BeginsValue (cs : List Char) : Prop := ∃ c, cs.head? = some c ∧ isJsonBlank c = false ∧ c ≠ ']'

theorem BeginsValue.skipBlanks_append {cs : List Char} (h : BeginsValue cs) (rest : List Char) :
    skipBlanks (cs ++ rest) = cs ++ rest := by
  obtain ⟨c, hhead, hblank, _⟩ := h
  obtain ⟨cs, rfl⟩ := List.head?_eq_some_iff.mp hhead
  exact skipBlanks_cons hblank _

/-- The characters with which integers begin. -/
def BeginsNumber (c : Char) : Prop := isDigit c = true ∨ c = '-'

theorem BeginsNumber.ne {c d : Char} (h : BeginsNumber c) (hd : isDigit d = false ∧ d ≠ '-') :
    c ≠ d := by
  rintro rfl
  rcases h with h | h
  · rw [hd.1] at h
    cases h
  · exact hd.2 h

theorem BeginsNumber.isJsonBlank_eq {c : Char} (h : BeginsNumber c) : isJsonBlank c = false := by
  simp only [isJsonBlank, Bool.or_eq_false_iff, beq_eq_false_iff_ne]
  exact ⟨⟨⟨h.ne (by decide), h.ne (by decide)⟩, h.ne (by decide)⟩, h.ne (by decide)⟩

theorem exists_toString_eq_cons (n : Int) :
    ∃ c cs, (toString n).toList = c :: cs ∧ BeginsNumber c := by
  cases n with
  | ofNat m =>
      have htext : (toString (Int.ofNat m)).toList = Nat.toDigits 10 m := Nat.toList_repr
      obtain ⟨c, cs, hcs⟩ := List.exists_cons_of_ne_nil (@Nat.toDigits_ne_nil m 10)
      exact ⟨c, cs, htext.trans hcs, .inl (isDigit_of_mem_toDigits m c (hcs ▸ List.mem_cons_self))⟩
  | negSucc m =>
      refine ⟨'-', (Nat.repr (m + 1)).toList, ?_, .inr rfl⟩
      show ("-" ++ Nat.repr (m + 1)).toList = _
      rw [String.toList_append]
      rfl

theorem Plain.begins {j : Json} (h : Plain j) (level : Nat) :
    BeginsValue (prettyAt level j).toList := by
  cases h with
  | null => exact ⟨'n', by rw [prettyAt]; rfl, by decide, by decide⟩
  | bool b => cases b with
    | false => exact ⟨'f', by rw [prettyAt]; rfl, by decide, by decide⟩
    | true => exact ⟨'t', by rw [prettyAt]; rfl, by decide, by decide⟩
  | @integer n _ _ =>
      obtain ⟨c, cs, hcs, hc⟩ := exists_toString_eq_cons n
      exact ⟨c, by rw [prettyAt, hcs]; rfl, hc.isJsonBlank_eq, hc.ne (by decide)⟩
  | string s => exact ⟨'"', by rw [prettyAt, toList_quoted]; rfl, by decide, by decide⟩
  | @array items _ =>
      refine ⟨'[', ?_, by decide, by decide⟩
      cases items with
      | nil => rw [prettyAt]; rfl
      | cons item items => simp [prettyAt]
  | @object fields _ =>
      refine ⟨'\x7b', ?_, by decide, by decide⟩
      cases fields with
      | nil => rw [prettyAt]; rfl
      | cons f fields => simp [prettyAt]

/-- Whether a value is read from its text, given as many readers as the text has characters. -/
def Reads (j : Json) : Prop :=
  ∀ (level : Nat) {fuel : Nat} {cs rest : List Char},
    skipBlanks cs = (prettyAt level j).toList ++ rest → EndsNumber rest →
      (prettyAt level j).toList.length ≤ fuel → readValue fuel cs = (j.source, some rest)

theorem reads_null : Reads .null := by
  intro level fuel cs rest hcs _ hfuel
  rw [prettyAt] at hcs hfuel
  cases fuel with
  | zero => cases hfuel
  | succ fuel =>
      rw [readValue, hcs]
      rfl

theorem reads_bool (b : Bool) : Reads (.bool b) := by
  intro level fuel cs rest hcs _ hfuel
  rw [prettyAt] at hcs hfuel
  cases fuel with
  | zero => cases b <;> cases hfuel
  | succ fuel =>
      rw [readValue, hcs]
      cases b <;> rfl

theorem reads_integer {n : Int} (hlow : integerRange.1 ≤ n) (hhigh : n ≤ integerRange.2) :
    Reads (.integer n) := by
  intro level fuel cs rest hcs hrest hfuel
  rw [prettyAt] at hcs hfuel
  have hread := readNumber_toString hlow hhigh hrest
  obtain ⟨c, digits, htext, hc⟩ := exists_toString_eq_cons n
  rw [htext] at hcs hfuel hread
  rw [List.cons_append] at hcs hread
  cases fuel with
  | zero => cases hfuel
  | succ fuel =>
      rw [readValue, hcs]
      split
      · next h => exact absurd (List.cons.inj h).1 (hc.ne (by decide))
      · next h => exact absurd (List.cons.inj h).1 (hc.ne (by decide))
      · next h => exact absurd (List.cons.inj h).1 (hc.ne (by decide))
      · next h => exact absurd (List.cons.inj h).1 (hc.ne (by decide))
      · next h => exact absurd (List.cons.inj h).1 (hc.ne (by decide))
      · next h => exact absurd (List.cons.inj h).1 (hc.ne (by decide))
      · rw [hread]
        rfl

theorem reads_string (s : String) : Reads (.string s) := by
  intro level fuel cs rest hcs _ hfuel
  rw [prettyAt, toList_quoted] at hcs hfuel
  obtain ⟨units, hunits, hstands⟩ := readUnits_quoted s rest
  cases fuel with
  | zero => cases hfuel
  | succ fuel =>
      rw [readValue, hcs]
      simp only [List.cons_append, List.append_assoc, List.nil_append, hunits, Option.map_some,
        hstands]
      rfl

theorem toList_prettyItems_singleton (level : Nat) (item : Json) :
    (prettyItems level [item]).toList = (newline level).toList ++ (prettyAt level item).toList := by
  rw [prettyItems, String.toList_append]

theorem toList_prettyItems_cons (level : Nat) (item next : Json) (items : List Json) :
    (prettyItems level (item :: next :: items)).toList =
      (newline level).toList ++ ((prettyAt level item).toList ++
        ',' :: (prettyItems level (next :: items)).toList) := by
  rw [prettyItems]
  · simp only [String.toList_append, List.append_assoc]
    rfl
  · exact List.cons_ne_nil next items

theorem toList_prettyAt_array (level : Nat) {items : List Json} (hne : items ≠ []) :
    (prettyAt level (.array items)).toList =
      '[' :: ((prettyItems (level + 1) items).toList ++ ((newline level).toList ++ [']'])) := by
  rw [prettyAt]
  · simp only [String.toList_append, List.append_assoc]
    rfl
  · exact hne

/-- The first item of an array begins behind its indentation. -/
theorem exists_skipBlanks_prettyItems (level : Nat) {items : List Json}
    (hitems : ∀ j ∈ items, Plain j) (hne : items ≠ []) (tail : List Char) :
    ∃ c cs, skipBlanks ((prettyItems level items).toList ++ tail) = c :: cs ∧
      isJsonBlank c = false ∧ c ≠ ']' := by
  obtain ⟨item, items, rfl⟩ := List.exists_cons_of_ne_nil hne
  have hbegins := (hitems item List.mem_cons_self).begins level
  obtain ⟨c, hhead, hc⟩ := hbegins
  obtain ⟨text, htext⟩ := List.head?_eq_some_iff.mp hhead
  cases items with
  | nil =>
      refine ⟨c, text ++ tail, ?_, hc⟩
      rw [toList_prettyItems_singleton, List.append_assoc, skipBlanks_newline, htext,
        List.cons_append, skipBlanks_cons hc.1]
  | cons next items =>
      refine ⟨c, text ++ (',' :: ((prettyItems level (next :: items)).toList ++ tail)), ?_, hc⟩
      rw [toList_prettyItems_cons, List.append_assoc, skipBlanks_newline, htext,
        List.append_assoc, List.cons_append, skipBlanks_cons hc.1, List.cons_append]

/-- The items of an array are read from their lines, up to the bracket behind them. -/
theorem readItems_prettyItems (level : Nat) {items : List Json}
    (hitems : ∀ j ∈ items, Plain j ∧ Reads j) (hne : items ≠ []) :
    ∀ {fuel : Nat} {cs tail rest : List Char},
      skipBlanks cs = skipBlanks ((prettyItems level items).toList ++ tail) →
      EndsNumber tail → skipBlanks tail = ']' :: rest →
      (prettyItems level items).toList.length ≤ fuel →
        readItems fuel cs = (sourceItems items, some rest) := by
  have hindent := length_newline level
  induction items with
  | nil => exact (hne rfl).elim
  | cons item items ih =>
      intro fuel cs tail rest hcs hends htail hfuel
      obtain ⟨hplain, hreads⟩ := hitems item List.mem_cons_self
      have hbegins := hplain.begins level
      cases items with
      | nil =>
          simp only [toList_prettyItems_singleton, List.append_assoc, skipBlanks_newline,
            hbegins.skipBlanks_append] at hcs
          rw [toList_prettyItems_singleton, List.length_append] at hfuel
          obtain ⟨fuel, rfl⟩ : ∃ k, fuel = k + 1 := ⟨fuel - 1, by omega⟩
          rw [readItems, hreads level hcs hends (by omega)]
          simp only [htail]
          rfl
      | cons next items =>
          simp only [toList_prettyItems_cons, List.append_assoc, List.cons_append,
            skipBlanks_newline, hbegins.skipBlanks_append] at hcs
          simp only [toList_prettyItems_cons, List.length_append, List.length_cons] at hfuel
          obtain ⟨fuel, rfl⟩ : ∃ k, fuel = k + 1 := ⟨fuel - 1, by omega⟩
          have hmore := ih (fun j hj => hitems j (List.mem_cons_of_mem item hj))
            (List.cons_ne_nil next items) rfl hends htail (show _ ≤ fuel by omega)
          rw [readItems, hreads level hcs (endsNumber_cons (by decide)) (by omega)]
          simp only [skipBlanks_cons (show isJsonBlank ',' = false by decide), hmore]
          rfl

theorem reads_array {items : List Json} (hitems : ∀ j ∈ items, Plain j ∧ Reads j) :
    Reads (.array items) := by
  intro level fuel cs rest hcs hrest hfuel
  by_cases hne : items = []
  · subst hne
    rw [prettyAt] at hcs hfuel
    cases fuel with
    | zero => cases hfuel
    | succ fuel =>
        rw [readValue, hcs]
        rfl
  · rw [toList_prettyAt_array level hne] at hcs hfuel
    simp only [List.cons_append, List.append_assoc, List.nil_append] at hcs
    simp only [List.length_cons, List.length_append] at hfuel
    obtain ⟨fuel, rfl⟩ : ∃ k, fuel = k + 1 := ⟨fuel - 1, by omega⟩
    have htail : skipBlanks ((newline level).toList ++ ']' :: rest) = ']' :: rest := by
      rw [skipBlanks_newline, skipBlanks_cons (by decide)]
    obtain ⟨c, inner, hinner, hblank, hc⟩ := exists_skipBlanks_prettyItems (level + 1)
      (fun j hj => (hitems j hj).1) hne ((newline level).toList ++ ']' :: rest)
    have hfirst : skipBlanks (c :: inner) = skipBlanks ((prettyItems (level + 1) items).toList ++
        ((newline level).toList ++ ']' :: rest)) := (skipBlanks_cons hblank inner).trans hinner.symm
    have hread := readItems_prettyItems (level + 1) hitems hne hfirst
      (endsNumber_newline level _) htail (show _ ≤ fuel by omega)
    rw [readValue, hcs]
    simp only [hinner]
    split
    · next h => exact absurd (List.cons.inj h).1 hc
    · rw [hread]
      rfl

theorem toList_prettyFields_singleton (level : Nat) (name : String) (value : Json) :
    (prettyFields level [(name, value)]).toList =
      (newline level).toList ++ ((quoted name).toList ++
        ':' :: ' ' :: (prettyAt level value).toList) := by
  rw [prettyFields]
  simp only [String.toList_append, List.append_assoc]
  rfl

theorem toList_prettyFields_cons (level : Nat) (name : String) (value : Json)
    (next : String × Json) (fields : List (String × Json)) :
    (prettyFields level ((name, value) :: next :: fields)).toList =
      (newline level).toList ++ ((quoted name).toList ++
        ':' :: ' ' :: ((prettyAt level value).toList ++
          ',' :: (prettyFields level (next :: fields)).toList)) := by
  rw [prettyFields]
  · simp only [String.toList_append, List.append_assoc]
    rfl
  · exact List.cons_ne_nil next fields

theorem toList_prettyAt_object (level : Nat) {fields : List (String × Json)} (hne : fields ≠ []) :
    (prettyAt level (.object fields)).toList =
      '\x7b' :: ((prettyFields (level + 1) fields).toList ++
        ((newline level).toList ++ ['\x7d'])) := by
  rw [prettyAt]
  · simp only [String.toList_append, List.append_assoc]
    rfl
  · exact hne

theorem skipBlanks_quoted (name : String) (cs : List Char) :
    skipBlanks ((quoted name).toList ++ cs) = (quoted name).toList ++ cs := by
  rw [toList_quoted]
  exact skipBlanks_cons (by decide) _

/-- The first name in an object begins behind its indentation. -/
theorem exists_skipBlanks_prettyFields (level : Nat) {fields : List (String × Json)}
    (hne : fields ≠ []) (tail : List Char) :
    ∃ cs, skipBlanks ((prettyFields level fields).toList ++ tail) = '"' :: cs := by
  obtain ⟨⟨name, value⟩, fields, rfl⟩ := List.exists_cons_of_ne_nil hne
  cases fields with
  | nil =>
      rw [toList_prettyFields_singleton, List.append_assoc, skipBlanks_newline, List.append_assoc,
        skipBlanks_quoted, toList_quoted, List.cons_append]
      exact ⟨_, rfl⟩
  | cons next fields =>
      rw [toList_prettyFields_cons, List.append_assoc, skipBlanks_newline, List.append_assoc,
        skipBlanks_quoted, toList_quoted, List.cons_append]
      exact ⟨_, rfl⟩

/-- A field is read by its name and its value. -/
theorem readField_quoted (name : String) {value : Json} (hplain : Plain value)
    (hreads : Reads value) (level : Nat) {fuel : Nat} {rest : List Char} (hrest : EndsNumber rest)
    (hfuel : (prettyAt level value).toList.length ≤ fuel) :
    readField (fuel + 1) ((quoted name).toList ++
        ':' :: ' ' :: ((prettyAt level value).toList ++ rest)) =
      ((some name, value.source), some rest) := by
  obtain ⟨units, hunits, hstands⟩ :=
    readUnits_quoted name (':' :: ' ' :: ((prettyAt level value).toList ++ rest))
  have hvalue : skipBlanks (' ' :: ((prettyAt level value).toList ++ rest)) =
      (prettyAt level value).toList ++ rest :=
    (hplain.begins level).skipBlanks_append rest
  rw [toList_quoted, List.cons_append, List.append_assoc, List.singleton_append, readField, hunits]
  simp only [Option.map_some, skipBlanks_cons (show isJsonBlank ':' = false by decide), hstands,
    hreads level hvalue hrest hfuel]

/-- The fields of an object are read from their lines, up to the brace behind them. -/
theorem readFields_prettyFields (level : Nat) {fields : List (String × Json)}
    (hfields : ∀ f ∈ fields, Plain f.2 ∧ Reads f.2) (hne : fields ≠ []) :
    ∀ {fuel : Nat} {cs tail rest : List Char},
      skipBlanks cs = skipBlanks ((prettyFields level fields).toList ++ tail) →
      EndsNumber tail → skipBlanks tail = '\x7d' :: rest →
      (prettyFields level fields).toList.length ≤ fuel →
        readFields fuel cs = (sourceFields fields, some rest) := by
  have hindent := length_newline level
  induction fields with
  | nil => exact (hne rfl).elim
  | cons f fields ih =>
      intro fuel cs tail rest hcs hends htail hfuel
      obtain ⟨name, value⟩ := f
      obtain ⟨hplain, hreads⟩ : Plain value ∧ Reads value := hfields _ List.mem_cons_self
      cases fields with
      | nil =>
          simp only [toList_prettyFields_singleton, List.append_assoc, List.cons_append,
            skipBlanks_newline, skipBlanks_quoted] at hcs
          simp only [toList_prettyFields_singleton, List.length_append, List.length_cons] at hfuel
          obtain ⟨fuel, rfl⟩ : ∃ k, fuel = k + 1 + 1 := ⟨fuel - 2, by omega⟩
          rw [readFields, hcs, readField_quoted name hplain hreads level hends (by omega)]
          simp only [htail]
          rfl
      | cons next fields =>
          simp only [toList_prettyFields_cons, List.append_assoc, List.cons_append,
            skipBlanks_newline, skipBlanks_quoted] at hcs
          simp only [toList_prettyFields_cons, List.length_append, List.length_cons] at hfuel
          obtain ⟨fuel, rfl⟩ : ∃ k, fuel = k + 1 + 1 := ⟨fuel - 2, by omega⟩
          have hmore := ih (fun f hf => hfields f (List.mem_cons_of_mem _ hf))
            (List.cons_ne_nil next fields) rfl hends htail (show _ ≤ fuel + 1 by omega)
          rw [readFields, hcs, readField_quoted name hplain hreads level
            (endsNumber_cons (by decide)) (by omega)]
          simp only [skipBlanks_cons (show isJsonBlank ',' = false by decide), hmore]
          rfl

theorem reads_object {fields : List (String × Json)}
    (hfields : ∀ f ∈ fields, Plain f.2 ∧ Reads f.2) : Reads (.object fields) := by
  intro level fuel cs rest hcs hrest hfuel
  by_cases hne : fields = []
  · subst hne
    rw [prettyAt] at hcs hfuel
    cases fuel with
    | zero => cases hfuel
    | succ fuel =>
        rw [readValue, hcs]
        rfl
  · rw [toList_prettyAt_object level hne] at hcs hfuel
    simp only [List.cons_append, List.append_assoc, List.nil_append] at hcs
    simp only [List.length_cons, List.length_append] at hfuel
    obtain ⟨fuel, rfl⟩ : ∃ k, fuel = k + 1 := ⟨fuel - 1, by omega⟩
    have htail : skipBlanks ((newline level).toList ++ '\x7d' :: rest) = '\x7d' :: rest := by
      rw [skipBlanks_newline, skipBlanks_cons (by decide)]
    obtain ⟨inner, hinner⟩ :=
      exists_skipBlanks_prettyFields (level + 1) hne ((newline level).toList ++ '\x7d' :: rest)
    have hfirst : skipBlanks ('"' :: inner) =
        skipBlanks ((prettyFields (level + 1) fields).toList ++
          ((newline level).toList ++ '\x7d' :: rest)) :=
      (skipBlanks_cons (by decide) inner).trans hinner.symm
    have hread := readFields_prettyFields (level + 1) hfields hne hfirst
      (endsNumber_newline level _) htail (show _ ≤ fuel by omega)
    rw [readValue, hcs]
    simp only [hinner]
    split
    · next h => exact absurd (List.cons.inj h).1 (by decide)
    · rw [hread]
      rfl

/-- A value is read as it was printed, at any level of indentation. -/
theorem Plain.reads {j : Json} (h : Plain j) : Reads j := by
  induction h with
  | null => exact reads_null
  | bool b => exact reads_bool b
  | integer hlow hhigh => exact reads_integer hlow hhigh
  | string s => exact reads_string s
  | array hplain ih => exact reads_array fun j hj => ⟨hplain j hj, ih j hj⟩
  | object hplain ih => exact reads_object fun f hf => ⟨hplain f hf, ih f hf⟩

/-- The whole text of a value is read. -/
theorem readText_pretty {j : Json} (h : Plain j) : readText j.pretty = (j.source, true) := by
  have hbegins := (h.begins 0).skipBlanks_append []
  rw [List.append_nil] at hbegins
  have hread := h.reads 0 (hbegins.trans (List.append_nil _).symm) endsNumber_nil
    (show _ ≤ 3 * (prettyAt 0 j).toList.length + 3 by omega)
  simp only [readText, pretty, hread]
  rfl

/-- Decoding a printed value is decoding the value. -/
theorem decodeText_pretty {α : Type} (decode : Decoder α) {j : Json} (h : Plain j) :
    decodeText decode j.pretty = decode j := by
  rw [decodeText, readText_pretty h]
  cases hdecoded : decode j.source <;> simp [hdecoded]

end Json

end JsonText

end ArchiveDeposit
