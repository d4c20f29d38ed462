import ArchiveDeposit.Identifier
import ArchiveDeposit.Proofs.Digits
import Mathlib.Data.Nat.Digits.Defs

/-!
# The texts of identifiers

An identifier is read from a text that shows a positive number which fits it: a numeral, with
nothing but blanks around it.  The numeral may have a plus sign and any number of zeros in front.
The check against the bound after each digit refuses exactly the numbers that do not fit, however
many digits they have, so that no number is read as a smaller one.

**Results.**
* `Text.readDecimal_eq_ok_iff`: reading below a bound takes the numerals of the numbers below it.
* `Text.shows_iff`: trimming leaves of a text the numeral that it shows.
* `Sbid.ofText_eq_ok_iff`, `CollectionId.ofText_eq_ok_iff`: what is read as an identifier.
* `identifier_read_iff`: the whole of it, for both families.
-/

namespace ArchiveDeposit

section IdentifierText

namespace Text

variable {bound n m : Nat} {cs digits front back : List Char}

/-- The number that digits stand for by their places, the last of which counts units. -/
def placeValue (digits : List Char) : Nat :=
  Nat.ofDigits 10 (digits.map fun c => c.toNat - '0'.toNat).reverse

/-- One or more ASCII digits that stand for a number. -/
structure StandFor (digits : List Char) (n : Nat) : Prop where
  ne_nil : digits ≠ []
  digit : ∀ c ∈ digits, c.isDigit = true
  value : placeValue digits = n

/-- The numerals of a number: digits that stand for it, behind a plus sign or without one. -/
inductive Numeral (n : Nat) : List Char → Prop where
  | plain {digits : List Char} (h : StandFor digits n) : Numeral n digits
  | signed {digits : List Char} (h : StandFor digits n) : Numeral n ('+' :: digits)

theorem isDigit_eq (c : Char) : isDigit c = c.isDigit :=
  Bool.eq_iff_iff.mpr (isDigit_iff.trans Char.isDigit_iff_toNat.symm)

/-- Reading digits from the left counts each by its place. -/
theorem decimalValue_eq (value : Nat) (digits : List Char) :
    decimalValue value digits = value * 10 ^ digits.length + placeValue digits := by
  induction digits generalizing value with
  | nil => simp [decimalValue, placeValue]
  | cons c cs ih =>
      have hplace : placeValue (c :: cs) =
          placeValue cs + 10 ^ cs.length * (c.toNat - '0'.toNat) := by
        simp only [placeValue, List.map_cons]
        rw [Nat.ofDigits_reverse_cons, List.length_map]
      calc decimalValue value (c :: cs)
          = decimalValue (value * 10 + (c.toNat - '0'.toNat)) cs := rfl
        _ = (value * 10 + (c.toNat - '0'.toNat)) * 10 ^ cs.length + placeValue cs := ih _
        _ = value * 10 ^ (c :: cs).length + placeValue (c :: cs) := by
          rw [hplace, List.length_cons]
          ring

theorem StandFor.isDigit (h : StandFor digits n) : ∀ c ∈ digits, isDigit c = true :=
  fun c hc => (isDigit_eq c).trans (h.digit c hc)

theorem readDigits_iff (hbound : 0 < bound) (hne : digits ≠ []) :
    readDigits bound 0 digits = .ok n ↔ StandFor digits n ∧ n < bound := by
  rw [readDigits_eq_ok_iff hbound, decimalValue_eq, Nat.zero_mul, Nat.zero_add]
  constructor
  · rintro ⟨hdigits, hvalue, hlt⟩
    have hdigit : ∀ c ∈ digits, c.isDigit = true := fun c hc =>
      (isDigit_eq c).symm.trans (List.all_eq_true.mp hdigits c hc)
    exact ⟨⟨hne, hdigit, hvalue.symm⟩, hlt⟩
  · rintro ⟨h, hlt⟩
    exact ⟨List.all_eq_true.mpr h.isDigit, h.value.symm, hlt⟩

/-- Reading below a bound takes the numerals of the numbers below it, and no other texts. -/
theorem readDecimal_eq_ok_iff (hbound : 0 < bound) :
    readDecimal bound cs = .ok n ↔ Numeral n cs ∧ n < bound := by
  constructor
  · intro h
    unfold readDecimal at h
    split at h
    · cases h
    · cases h
    · next digits hsign =>
        have hne : digits ≠ [] := fun hnil => hsign (by rw [hnil])
        obtain ⟨hstand, hlt⟩ := (readDigits_iff hbound hne).mp h
        exact ⟨.signed hstand, hlt⟩
    · next hne _ _ =>
        obtain ⟨hstand, hlt⟩ := (readDigits_iff hbound hne).mp h
        exact ⟨.plain hstand, hlt⟩
  · rintro ⟨hnumeral, hlt⟩
    cases hnumeral with
    | plain h =>
        have hplus : '+' ∉ cs := fun hmem => absurd (h.digit '+' hmem) (by decide)
        unfold readDecimal
        split
        · exact absurd rfl h.ne_nil
        · exact absurd (List.mem_singleton_self '+') hplus
        · exact absurd List.mem_cons_self hplus
        · exact (readDigits_iff hbound h.ne_nil).mpr ⟨h, hlt⟩
    | signed h =>
        obtain ⟨c, digits, rfl⟩ := List.exists_cons_of_ne_nil h.ne_nil
        exact (readDigits_iff hbound h.ne_nil).mpr ⟨h, hlt⟩

namespace Numeral

theorem ne_nil (h : Numeral n cs) : cs ≠ [] := by
  cases h with
  | plain h => exact h.ne_nil
  | signed h => exact List.cons_ne_nil _ _

theorem isBlank_eq_false (h : Numeral n cs) : ∀ c ∈ cs, isBlank c = false := by
  cases h with
  | plain h => exact fun c hc => isBlank_of_isDigit (h.isDigit c hc)
  | signed h =>
      exact List.forall_mem_cons.mpr ⟨by decide, fun c hc => isBlank_of_isDigit (h.isDigit c hc)⟩

/-- A numeral is that of one number. -/
theorem unique (h : Numeral n cs) (h' : Numeral m cs) : n = m := by
  have hread : readDecimal (n + m + 1) cs = .ok n :=
    (readDecimal_eq_ok_iff (by omega)).mpr ⟨h, by omega⟩
  have hread' : readDecimal (n + m + 1) cs = .ok m :=
    (readDecimal_eq_ok_iff (by omega)).mpr ⟨h', by omega⟩
  exact Except.ok.inj (hread.symm.trans hread')

end Numeral

/-- The texts that show a number: a numeral of it, with nothing but blanks in front and behind. -/
inductive Shows (n : Nat) : List Char → Prop where
  | intro {front numeral back : List Char} (hfront : ∀ c ∈ front, isBlank c = true)
      (hnumeral : Numeral n numeral) (hback : ∀ c ∈ back, isBlank c = true) :
      Shows n (front ++ numeral ++ back)

/-- A text without blanks keeps its front. -/
theorem trimFront_of_not_isBlank (hne : cs ≠ []) (hcs : ∀ c ∈ cs, isBlank c = false)
    (rest : List Char) : trimFront (cs ++ rest) = cs ++ rest := by
  obtain ⟨c, cs, rfl⟩ := List.exists_cons_of_ne_nil hne
  exact trimFront_cons (hcs c List.mem_cons_self)

/-- Trimming leaves a text without blanks that has nothing but blanks around it. -/
theorem trim_append (hfront : ∀ c ∈ front, isBlank c = true) (hne : cs ≠ [])
    (hcs : ∀ c ∈ cs, isBlank c = false) (hback : ∀ c ∈ back, isBlank c = true) :
    trim (front ++ cs ++ back) = cs := by
  have hbegin : trimFront (front ++ cs ++ back) = cs ++ back := by
    rw [List.append_assoc, trimFront_append hfront, trimFront_of_not_isBlank hne hcs]
  have hend : trimFront (cs ++ back).reverse = cs.reverse := by
    rw [List.reverse_append, trimFront_append fun c hc => hback c (List.mem_reverse.mp hc)]
    simpa using @trimFront_of_not_isBlank cs.reverse (by simpa using hne)
      (fun c hc => hcs c (List.mem_reverse.mp hc)) []
  rw [trim, hbegin, trimBack, hend, List.reverse_reverse]

/-- Trimming takes nothing but blanks away. -/
theorem exists_append_trim (cs : List Char) :
    ∃ front back, (∀ c ∈ front, isBlank c = true) ∧ (∀ c ∈ back, isBlank c = true) ∧
      cs = front ++ trim cs ++ back := by
  obtain ⟨front, hfront, hbegin⟩ := exists_append_trimFront cs
  obtain ⟨back, hback, hend⟩ := exists_append_trimFront (trimFront cs).reverse
  have hrest : trimFront cs = trim cs ++ back.reverse := by
    rw [← List.reverse_reverse (trimFront cs), hend, List.reverse_append]
    rfl
  refine ⟨front, back.reverse, hfront, fun c hc => hback c (List.mem_reverse.mp hc), ?_⟩
  rw [List.append_assoc, ← hrest]
  exact hbegin

/-- Trimming leaves of a text the numeral that it shows. -/
theorem shows_iff : Shows n cs ↔ Numeral n (trim cs) := by
  constructor
  · rintro ⟨hfront, hnumeral, hback⟩
    rwa [trim_append hfront hnumeral.ne_nil hnumeral.isBlank_eq_false hback]
  · intro hnumeral
    obtain ⟨front, back, hfront, hback, heq⟩ := exists_append_trim cs
    rw [heq]
    exact .intro hfront hnumeral hback

/-- A text shows one number. -/
theorem Shows.unique (h : Shows n cs) (h' : Shows m cs) : n = m :=
  (shows_iff.mp h).unique (shows_iff.mp h')

theorem readDecimal_trim_iff (hbound : 0 < bound) :
    readDecimal bound (trim cs) = .ok n ↔ Shows n cs ∧ n < bound := by
  rw [readDecimal_eq_ok_iff hbound, shows_iff]

/-- A word that is not zero is read, and made something of, from the texts that show its number. -/
theorem readPositive_iff {Word Id Fault : Type} [OfNat Word 0] [DecidableEq Word]
    {toNat : Word → Nat} {ofNat : Nat → Word} {make : Word → Id} {word : Word}
    (hlt : ∀ w, toNat w < bound) (hword : ∀ w, ofNat (toNat w) = w)
    (hnumber : ∀ n < bound, toNat (ofNat n) = n) (hmake : Function.Injective make)
    (malformed : DecimalFault → Fault) (notPositive : Fault) :
    (match readDecimal bound (trim cs) with
      | .error fault => .error (malformed fault)
      | .ok n => if ofNat n = 0 then .error notPositive else .ok (make (ofNat n))) =
        Except.ok (make word) ↔ Shows (toNat word) cs ∧ word ≠ 0 := by
  have hbound : 0 < bound := Nat.zero_lt_of_lt (hlt word)
  constructor
  · intro h
    split at h
    · cases h
    · next n hread =>
        obtain ⟨hshows, hn⟩ := (readDecimal_trim_iff hbound).mp hread
        split at h
        · cases h
        · next hzero =>
            obtain rfl := hmake (Except.ok.inj h)
            exact ⟨(hnumber n hn).symm ▸ hshows, hzero⟩
  · rintro ⟨hshows, hzero⟩
    rw [(readDecimal_trim_iff hbound).mpr ⟨hshows, hlt word⟩]
    dsimp only
    rw [hword, if_neg hzero]

/-- A number is shown by its digits. -/
theorem shows_toString (n : Nat) (hfront : ∀ c ∈ front, isBlank c = true)
    (hback : ∀ c ∈ back, isBlank c = true) : Shows n (front ++ (toString n).toList ++ back) := by
  have hdigits : (toString n).toList = Nat.toDigits 10 n := Nat.toList_repr
  have hvalue := decimalValue_toDigits n
  rw [decimalValue_eq, Nat.zero_mul, Nat.zero_add] at hvalue
  rw [hdigits]
  exact .intro hfront (.plain ⟨Nat.toDigits_ne_nil,
    fun c hc => (isDigit_eq c).symm.trans (isDigit_of_mem_toDigits n c hc), hvalue⟩) hback

end Text

variable {text : String}

/-- An observation's identifier is read from the texts that show its number, unless that is zero. -/
theorem Sbid.ofText_eq_ok_iff {id : Sbid} :
    ofText text = .ok id ↔ Text.Shows id.value.toNat text.toList ∧ id.value ≠ 0 :=
  Text.readPositive_iff UInt32.toNat_lt (fun _ => UInt32.ofNat_toNat)
    (fun _ hn => UInt32.toNat_ofNat_of_lt hn) (fun _ _ => congrArg Sbid.value) _ _

/-- A collection's identifier is read from the texts that show its number, unless that is zero. -/
theorem CollectionId.ofText_eq_ok_iff {id : CollectionId} :
    ofText text = .ok id ↔ Text.Shows id.value.toNat text.toList ∧ id.value ≠ 0 :=
  Text.readPositive_iff UInt64.toNat_lt (fun _ => UInt64.ofNat_toNat)
    (fun _ hn => UInt64.toNat_ofNat_of_lt hn) (fun _ _ => congrArg CollectionId.value) _ _

/-- A way of reading identifiers takes exactly the texts that show a positive number below a bound,
and gives the identifier of that number.  A larger number is refused and not read as another one,
and the digits of a number are read whatever blanks stand around them. -/
structure ReadsExactly {Id Fault : Type} (bound : Nat) (number : Id → Nat)
    (read : String → Except Fault Id) : Prop where
  accepts : ∀ text, (∃ id, read text = .ok id) ↔
    ∃ v, Text.Shows v text.toList ∧ 1 ≤ v ∧ v < bound
  value : ∀ text id v, read text = .ok id → Text.Shows v text.toList → number id = v
  refuses : ∀ text v, Text.Shows v text.toList → bound ≤ v → ∃ fault, read text = .error fault
  digits : ∀ id, 1 ≤ number id → ∀ front back : String,
    (∀ c ∈ front.toList, Text.isBlank c = true) → (∀ c ∈ back.toList, Text.isBlank c = true) →
    read (front ++ toString (number id) ++ back) = .ok id

theorem ReadsExactly.of_iff {Id Fault : Type} {bound : Nat} {number : Id → Nat}
    {read : String → Except Fault Id} (hlt : ∀ id, number id < bound)
    (hnumber : ∀ v < bound, ∃ id, number id = v)
    (hread : ∀ text id, read text = .ok id ↔
      Text.Shows (number id) text.toList ∧ 1 ≤ number id) :
    ReadsExactly bound number read where
  accepts text := by
    constructor
    · rintro ⟨id, hid⟩
      obtain ⟨hshows, hpos⟩ := (hread text id).mp hid
      exact ⟨number id, hshows, hpos, hlt id⟩
    · rintro ⟨v, hshows, hpos, hv⟩
      obtain ⟨id, rfl⟩ := hnumber v hv
      exact ⟨id, (hread text id).mpr ⟨hshows, hpos⟩⟩
  value text id v hid hshows := ((hread text id).mp hid).1.unique hshows
  refuses text v hshows hlarge := by
    cases hresult : read text with
    | error fault => exact ⟨fault, rfl⟩
    | ok id =>
        have hsame : number id = v := ((hread text id).mp hresult).1.unique hshows
        exact absurd (hlt id) (by omega)
  digits id hpos front back hfront hback := by
    refine (hread _ id).mpr ⟨?_, hpos⟩
    rw [String.toList_append, String.toList_append]
    exact Text.shows_toString (number id) hfront hback

/-- Identifiers of both families are read from exactly the texts that show a positive number which
fits them. -/
theorem identifier_read_iff :
    ReadsExactly (2 ^ 32) (fun id : Sbid => id.value.toNat) Sbid.ofText ∧
      ReadsExactly (2 ^ 64) (fun id : CollectionId => id.value.toNat) CollectionId.ofText := by
  constructor
  · refine .of_iff (fun id => id.value.toNat_lt)
      (fun v hv => ⟨⟨UInt32.ofNat v⟩, UInt32.toNat_ofNat_of_lt hv⟩) fun text id => ?_
    rw [Sbid.ofText_eq_ok_iff, Nat.one_le_iff_ne_zero, Ne, Ne, ← UInt32.toNat_inj]
    rfl
  · refine .of_iff (fun id => id.value.toNat_lt)
      (fun v hv => ⟨⟨UInt64.ofNat v⟩, UInt64.toNat_ofNat_of_lt hv⟩) fun text id => ?_
    rw [CollectionId.ofText_eq_ok_iff, Nat.one_le_iff_ne_zero, Ne, Ne, ← UInt64.toNat_inj]
    rfl

/-- The largest identifier of an observation behind zeros, a sign and a blank that is not ASCII, and
the number after it, which only a collection can have. -/
theorem identifier_read_largest :
    Sbid.ofText "\u2003+0004294967295\n" = .ok ⟨4294967295⟩ ∧
      (∃ fault, Sbid.ofText "\u20034294967296" = .error fault) ∧
      CollectionId.ofText "\u20034294967296" = .ok ⟨4294967296⟩ := by
  have hblank : ∀ c ∈ "\u2003".toList, Text.isBlank c = true := List.all_eq_true.mp (by decide)
  have hlargest : Text.Shows 4294967295 "\u2003+0004294967295\n".toList :=
    @Text.Shows.intro _ ['\u2003'] "+0004294967295".toList ['\n'] hblank
      (.signed ⟨by decide, List.all_eq_true.mp (by decide), by decide⟩)
      (List.all_eq_true.mp (by decide))
  have hnext : Text.Shows 4294967296 "\u20034294967296".toList :=
    @Text.Shows.intro _ ['\u2003'] "4294967296".toList [] hblank
      (.plain ⟨by decide, List.all_eq_true.mp (by decide), by decide⟩) nofun
  obtain ⟨hsbid, hcollection⟩ := identifier_read_iff
  obtain ⟨id, hid⟩ := (hsbid.accepts _).mpr ⟨_, hlargest, by decide, by decide⟩
  have hvalue : id = ⟨4294967295⟩ :=
    congrArg Sbid.mk (UInt32.toNat_inj.mp (hsbid.value _ _ _ hid hlargest))
  have hdigits := hcollection.digits ⟨4294967296⟩ (by decide) "\u2003" "" hblank nofun
  exact ⟨hvalue ▸ hid, hsbid.refuses _ _ hnext (by decide), hdigits⟩

end IdentifierText

end ArchiveDeposit
