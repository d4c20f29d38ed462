import ArchiveDeposit.Proofs.StoredForm
import ArchiveDeposit.Proofs.TextOrder
import Mathlib.Data.List.Forall2

/-!
# The canonical text of a written instant

What people write is read in one form only, but with leeway: letters of either case, fractions of any
length, a second of 60.  Nothing of that stays.  An instant that was read has a year of four digits
and lies at the beginning of its second, so its shown text is a text of the same form, it is read as
the same instant, and it sorts where the instant does.

**Results.**
* `readExactly_eq_ok_iff`, `readMark_eq_ok_iff`: what the parts of the form take, and what they leave.
* `hasStoredYear_of_ofText`, `nanos_of_ofText`: what is known of an instant that was read.
* `ofText_text`, `exists_ofText_iff`: shown texts are read as what they show, so which instants can be
  written.
* `written_canonical`: the text is one of twenty characters, also the stored one, read as the same
  instant by both readers, and ordered like the instant.
-/

namespace ArchiveDeposit

section CanonicalTime

namespace Timestamp

open Text

/-- A part that was read, and the reading of what it left. -/
theorem exists_of_bind_eq_ok {ε α β : Type} {part : Except ε α} {rest : α → Except ε β} {b : β}
    (h : part >>= rest = .ok b) : ∃ a, part = .ok a ∧ rest a = .ok b := by
  cases part with
  | error e => cases h
  | ok a => exact ⟨a, rfl, h⟩

theorem readExactly_eq_ok_iff {n value m : Nat} {cs rest : List Char} :
    readExactly n value cs = .ok (m, rest) ↔
      ∃ digits : List Char, digits.length = n ∧ (∀ c ∈ digits, isDigit c = true) ∧
        m = decimalValue value digits ∧ cs = digits ++ rest := by
  induction n generalizing value cs with
  | zero =>
      simp only [readExactly, Except.ok.injEq, Prod.mk.injEq, List.length_eq_zero_iff]
      constructor
      · rintro ⟨rfl, rfl⟩
        exact ⟨[], rfl, (fun _ hc => nomatch hc), rfl, rfl⟩
      · rintro ⟨_, rfl, _, rfl, rfl⟩
        exact ⟨rfl, rfl⟩
  | succ n ih =>
      cases cs with
      | nil =>
          refine ⟨nofun, ?_⟩
          rintro ⟨digits, hlength, _, _, hsplit⟩
          rw [(List.append_eq_nil_iff.mp hsplit.symm).1] at hlength
          cases hlength
      | cons c cs =>
          unfold readExactly
          cases hdigit : digitValue? c with
          | none =>
              refine ⟨nofun, ?_⟩
              rintro ⟨digits, hlength, hdigits, _, hsplit⟩
              obtain ⟨d, digits, rfl⟩ := List.exists_cons_of_length_eq_add_one hlength
              have hc : isDigit c = true := by
                rw [(List.cons.inj hsplit).1]
                exact hdigits d List.mem_cons_self
              simp [isDigit, hdigit] at hc
          | some d =>
              obtain ⟨hc, hvalue⟩ := digitValue?_eq_some_iff.mp hdigit
              simp only [ih]
              constructor
              · rintro ⟨digits, hlength, hdigits, hm, rfl⟩
                refine ⟨c :: digits, congrArg (· + 1) hlength, ?_, ?_, rfl⟩
                · exact List.forall_mem_cons.mpr ⟨hc, hdigits⟩
                · rw [hm, hvalue]
                  rfl
              · rintro ⟨digits, hlength, hdigits, hm, hsplit⟩
                obtain ⟨c', digits, rfl⟩ := List.exists_cons_of_length_eq_add_one hlength
                obtain ⟨rfl, rfl⟩ := List.cons.inj hsplit
                refine ⟨digits, Nat.succ.inj hlength, (List.forall_mem_cons.mp hdigits).2, ?_, rfl⟩
                rw [hm, hvalue]
                rfl

theorem readMark_eq_ok_iff {accept : Char → Bool} {cs rest : List Char} :
    readMark accept cs = .ok rest ↔ ∃ c, accept c = true ∧ cs = c :: rest := by
  cases cs with
  | nil => exact ⟨nofun, fun ⟨_, _, h⟩ => nomatch h⟩
  | cons c cs =>
      cases haccept : accept c with
      | true =>
          simp only [readMark, haccept, if_true, Except.ok.injEq, List.cons.injEq]
          constructor
          · rintro rfl
            exact ⟨c, haccept, rfl, rfl⟩
          · rintro ⟨_, _, _, rfl⟩
            rfl
      | false =>
          simp only [readMark, haccept, Bool.false_eq_true, if_false, List.cons.injEq]
          refine ⟨nofun, ?_⟩
          rintro ⟨d, hd, rfl, _⟩
          rw [haccept] at hd
          cases hd

theorem suffix_of_readFraction {cs rest : List Char} {nanos : Nat}
    (h : readFraction cs = .ok (nanos, rest)) : rest <:+ cs := by
  unfold readFraction at h
  split at h
  · next cs =>
      dsimp only at h
      split at h
      · cases h
      · obtain ⟨_, rfl⟩ := Prod.mk.inj (Except.ok.inj h)
        exact (List.dropWhile_suffix _).trans (List.suffix_cons _ _)
  · obtain ⟨_, rfl⟩ := Prod.mk.inj (Except.ok.inj h)
    exact List.suffix_refl _

theorem readOffsetPair_eq_ok {highest : Char} {cs rest : List Char} {n : Nat}
    (h : readOffsetPair highest cs = .ok (n, rest)) :
    ∃ c d, isDigit d = true ∧ cs = c :: d :: rest := by
  unfold readOffsetPair at h
  split at h
  · cases h
  · cases h
  · next c d cs =>
      split at h
      · next x y hx hy =>
          split at h
          · obtain ⟨_, rfl⟩ := Prod.mk.inj (Except.ok.inj h)
            exact ⟨c, d, (digitValue?_eq_some_iff.mp hy).1, rfl⟩
          · cases h
      · cases h

theorem readOffsetSign_eq_ok {cs rest : List Char} {negative : Bool}
    (h : readOffsetSign cs = .ok (negative, rest)) : ∃ c, cs = c :: rest := by
  unfold readOffsetSign at h
  repeat' split at h
  all_goals cases h
  all_goals exact ⟨_, rfl⟩

theorem readColon_eq_ok {cs rest : List Char} (h : readColon cs = .ok rest) :
    ∃ c, cs = c :: rest := by
  unfold readColon at h
  repeat' split at h
  all_goals cases h
  exact ⟨_, rfl⟩

/-- A zone that ends the text with `Z` is that of UTC: an offset ends with a digit. -/
theorem offset_of_readZone {cs : List Char} {offset : Int}
    (hread : readZone readColon cs = .ok (offset, [])) (hlast : cs.getLast? = some 'Z') :
    offset = 0 := by
  unfold readZone at hread
  split at hread
  · exact (Prod.mk.inj (Except.ok.inj hread)).1.symm
  · exact (Prod.mk.inj (Except.ok.inj hread)).1.symm
  · obtain ⟨⟨negative, cs₁⟩, hsign, hread⟩ := exists_of_bind_eq_ok hread
    obtain ⟨⟨hours, cs₂⟩, hhours, hread⟩ := exists_of_bind_eq_ok hread
    obtain ⟨cs₃, hcolon, hread⟩ := exists_of_bind_eq_ok hread
    obtain ⟨⟨minutes, cs₄⟩, hminutes, hread⟩ := exists_of_bind_eq_ok hread
    obtain ⟨_, rfl⟩ := Prod.mk.inj (Except.ok.inj hread)
    obtain ⟨sign, rfl⟩ := readOffsetSign_eq_ok hsign
    obtain ⟨_, _, _, rfl⟩ := readOffsetPair_eq_ok hhours
    obtain ⟨_, rfl⟩ := readColon_eq_ok hcolon
    obtain ⟨_, last, hdigit, rfl⟩ := readOffsetPair_eq_ok hminutes
    have hz : last = 'Z' := by simpa using hlast
    rw [hz] at hdigit
    exact absurd hdigit (by decide)

theorem suffix_of_readExactly {n value m : Nat} {cs rest : List Char}
    (h : readExactly n value cs = .ok (m, rest)) : rest <:+ cs := by
  obtain ⟨digits, _, _, _, rfl⟩ := readExactly_eq_ok_iff.mp h
  exact List.suffix_append digits rest

/-- As many digits as are read, as large is the number at most. -/
theorem lt_of_readExactly {n m : Nat} {cs rest : List Char}
    (h : readExactly n 0 cs = .ok (m, rest)) : m < 10 ^ n := by
  obtain ⟨digits, rfl, hdigits, rfl, _⟩ := readExactly_eq_ok_iff.mp h
  have hlt := decimalValue_lt hdigits 0
  rwa [Nat.zero_add, Nat.one_mul] at hlt

theorem suffix_of_readMark {accept : Char → Bool} {cs rest : List Char}
    (h : readMark accept cs = .ok rest) : rest <:+ cs := by
  obtain ⟨c, _, rfl⟩ := readMark_eq_ok_iff.mp h
  exact List.suffix_cons c rest

/-- The clock shows a second of the day. -/
theorem lt_of_clock? {hour minute second nanos : Nat} {reading : Nat × Nat}
    (h : clock? hour minute second nanos = some reading) : reading.1 < secondsPerDay := by
  unfold clock? at h
  simp only [secondsPerDay]
  split at h
  · next hclock =>
      split at h
      · rw [← Option.some.inj h]
        dsimp only
        omega
      · rw [← Option.some.inj h]
        dsimp only
        omega
  · cases h

/-- A text of the exact form is a local instant, with a year of four digits, and a zone behind it. -/
theorem parts_of_readExact {cs : List Char} {t : Timestamp} (h : readExact cs = .ok t) :
    ∃ (shown : Timestamp) (zone : List Char) (offset : Int), shown.HasStoredYear ∧ zone <:+ cs ∧
      readZone readColon zone = .ok (offset, []) ∧
      t = ofLocal shown.date shown.second shown.nanos offset shown.nanos_in_second := by
  unfold readExact at h
  dsimp only at h
  split at h
  · cases h
  obtain ⟨⟨year, cs₁⟩, hyear, h⟩ := exists_of_bind_eq_ok h
  obtain ⟨cs₂, hhyphen, h⟩ := exists_of_bind_eq_ok h
  obtain ⟨⟨month, cs₃⟩, hmonth, h⟩ := exists_of_bind_eq_ok h
  obtain ⟨cs₄, hhyphen', h⟩ := exists_of_bind_eq_ok h
  obtain ⟨⟨day, cs₅⟩, hday, h⟩ := exists_of_bind_eq_ok h
  dsimp only at h
  split at h
  rotate_left
  · cases h
  next date hdate =>
  obtain ⟨cs₆, hletter, h⟩ := exists_of_bind_eq_ok h
  obtain ⟨⟨hour, cs₇⟩, hhour, h⟩ := exists_of_bind_eq_ok h
  obtain ⟨cs₈, hcolon, h⟩ := exists_of_bind_eq_ok h
  obtain ⟨⟨minute, cs₉⟩, hminute, h⟩ := exists_of_bind_eq_ok h
  obtain ⟨cs₁₀, hcolon', h⟩ := exists_of_bind_eq_ok h
  obtain ⟨⟨second, cs₁₁⟩, hsecond, h⟩ := exists_of_bind_eq_ok h
  obtain ⟨⟨nanos, zone⟩, hfraction, h⟩ := exists_of_bind_eq_ok h
  dsimp only at h
  split at h
  rotate_left
  · cases h
  next clockSecond leap hclock =>
  obtain ⟨⟨offset, left⟩, hzone, h⟩ := exists_of_bind_eq_ok h
  dsimp only at h
  split at h
  rotate_left
  · cases h
  next hend =>
  split at h
  rotate_left
  · cases h
  next hnanos =>
  -- Each part leaves the end of the text, so the zone, which leaves nothing, is the end of it.
  have hyearRange : date.year = year ∧ year < 10 ^ 4 :=
    ⟨(Date.ofFields?_eq_some hdate).1, lt_of_readExactly hyear⟩
  have hdateRest : cs₆ <:+ cs :=
    (suffix_of_readMark hletter).trans <| (suffix_of_readExactly hday).trans <|
      (suffix_of_readMark hhyphen').trans <| (suffix_of_readExactly hmonth).trans <|
        (suffix_of_readMark hhyphen).trans (suffix_of_readExactly hyear)
  have hclockRest : zone <:+ cs₆ :=
    (suffix_of_readFraction hfraction).trans <| (suffix_of_readExactly hsecond).trans <|
      (suffix_of_readMark hcolon').trans <| (suffix_of_readExactly hminute).trans <|
        (suffix_of_readMark hcolon).trans (suffix_of_readExactly hhour)
  rw [List.isEmpty_iff.mp hend] at hzone
  refine ⟨⟨date, clockSecond, leap + nanos, lt_of_clock? hclock, hnanos⟩, zone, offset, ?_,
    hclockRest.trans hdateRest, hzone, (Except.ok.inj h).symm⟩
  constructor <;> dsimp only <;> omega

/-- What people write is read in the exact form, if it ends with the zone of UTC, and no fraction of a
second is kept. -/
theorem ofText_eq_ok_iff {s : String} {t : Timestamp} :
    ofText s = .ok t ↔ s.toList.getLast? = some 'Z' ∧
      ∃ read, readExact s.toList = .ok read ∧ read.truncate = t := by
  unfold ofText
  split
  · next hlast =>
      rw [and_iff_right hlast]
      cases readExact s.toList with
      | error fault => simp
      | ok read => simp
  · next hlast => simp [hlast]

/-- Of an instant that was written only the second is kept. -/
theorem nanos_of_ofText {s : String} {t : Timestamp} (h : ofText s = .ok t) : t.nanos = 0 := by
  obtain ⟨_, read, _, rfl⟩ := ofText_eq_ok_iff.mp h
  rfl

/-- An instant that was written has a year of four digits. -/
theorem hasStoredYear_of_ofText {s : String} {t : Timestamp} (h : ofText s = .ok t) :
    t.HasStoredYear := by
  obtain ⟨hlast, read, hread, rfl⟩ := ofText_eq_ok_iff.mp h
  obtain ⟨shown, zone, offset, hyear, ⟨front, hfront⟩, hzone, rfl⟩ := parts_of_readExact hread
  have hne : zone ≠ [] := by
    rintro rfl
    cases hzone
  rw [← hfront, List.getLast?_append_of_ne_nil _ hne] at hlast
  rw [offset_of_readZone hzone hlast, ofLocal_zero]
  exact hyear

theorem readExactly_paddedDigits {width n : Nat} (hn : n < 10 ^ width) (rest : List Char) :
    readExactly width 0 (paddedDigits width n ++ rest) = .ok (n, rest) := by
  refine readExactly_eq_ok_iff.mpr
    ⟨paddedDigits width n, length_paddedDigits width n, isDigit_of_mem_paddedDigits, ?_, rfl⟩
  rw [decimalValue_paddedDigits, Nat.mod_eq_of_lt hn]

theorem readMark_cons {accept : Char → Bool} {c : Char} (haccept : accept c = true)
    (rest : List Char) : readMark accept (c :: rest) = .ok rest :=
  readMark_eq_ok_iff.mpr ⟨c, haccept, rfl⟩

/-- A text has at least as many bytes as characters. -/
theorem length_le_byteLength (cs : List Char) : cs.length ≤ byteLength cs := by
  have hall : ∀ n, n + cs.length ≤ cs.foldl (fun n c => n + c.utf8Size) n := by
    induction cs with
    | nil => exact fun n => Nat.le_refl n
    | cons c cs ih =>
        intro n
        have hrest := ih (n + c.utf8Size)
        have hsize := c.utf8Size_pos
        rw [List.length_cons, List.foldl_cons]
        omega
  exact Nat.le_trans (Nat.le_of_eq (Nat.zero_add _).symm) (hall 0)

/-- The shape `YYYY-MM-DDThh:mm:ssZ`, by what may stand in each place. -/
def shownShape : List (Char → Bool) :=
  List.replicate 4 isDigit ++ (· == '-') :: (List.replicate 2 isDigit ++
    (· == '-') :: (List.replicate 2 isDigit ++ (· == 'T') :: (List.replicate 2 isDigit ++
      (· == ':') :: (List.replicate 2 isDigit ++ (· == ':') :: (List.replicate 2 isDigit ++
        [(· == 'Z')])))))

/-- Whether every character of a text is one that may stand in its place. -/
def HasShape (shape : List (Char → Bool)) (cs : List Char) : Prop :=
  List.Forall₂ (fun accept c => accept c = true) shape cs

theorem hasShape_digits {digits : List Char} (hall : ∀ c ∈ digits, isDigit c = true) :
    HasShape (List.replicate digits.length isDigit) digits := by
  induction digits with
  | nil => exact .nil
  | cons c digits ih =>
      obtain ⟨hc, hdigits⟩ := List.forall_mem_cons.mp hall
      exact .cons hc (ih hdigits)

theorem hasShape_paddedDigits_append {width n : Nat} {shape : List (Char → Bool)} {cs : List Char}
    (h : HasShape shape cs) :
    HasShape (List.replicate width isDigit ++ shape) (paddedDigits width n ++ cs) := by
  have hdigits : HasShape (List.replicate width isDigit) (paddedDigits width n) := by
    have hshape := hasShape_digits (@isDigit_of_mem_paddedDigits width n)
    rwa [length_paddedDigits] at hshape
  exact List.rel_append hdigits h

/-- Every instant with a year of four digits is shown in the same shape. -/
theorem hasShape_shownChars {t : Timestamp} (h : t.HasStoredYear) :
    HasShape shownShape t.shownChars := by
  rw [shownChars_eq h]
  refine hasShape_paddedDigits_append (.cons rfl ?_)
  refine hasShape_paddedDigits_append (.cons rfl ?_)
  refine hasShape_paddedDigits_append (.cons rfl ?_)
  refine hasShape_paddedDigits_append (.cons rfl ?_)
  refine hasShape_paddedDigits_append (.cons rfl ?_)
  exact hasShape_paddedDigits_append (.cons rfl .nil)

/-- A shown text is read as the instant that it shows: all but the fraction of the second, also in a
leap second. -/
theorem readExact_shownChars {t : Timestamp} (h : t.HasStoredYear) :
    ∃ read, readExact t.shownChars = .ok read ∧ read.truncate = t.truncate := by
  obtain ⟨leap, hclock, htotal⟩ := t.clock?_clockText
  obtain ⟨hmonth, hday⟩ := t.date_lt
  obtain ⟨hhour, hminute, hsecond⟩ := t.clock_lt
  have hlong : ¬ byteLength t.shownChars < 19 := by
    have hlength := (hasShape_shownChars h).length_eq
    have hbytes := length_le_byteLength t.shownChars
    rw [← hlength, show shownShape.length = 20 from rfl] at hbytes
    omega
  have hdate : Date.ofFields? (t.date.year.toNat : Int) t.date.month t.date.day = some t.date := by
    rw [Int.toNat_of_nonneg h.1]
    exact t.date.ofFields?_self
  have hnanos : IsNanos t.second (leap + 0) := by
    have ht := t.nanos_in_second
    simp only [IsNanos] at ht ⊢
    omega
  -- What is read of a leap second has its nanoseconds, and no fraction beside them.
  refine ⟨⟨t.date, t.second, leap + 0, t.second_lt, hnanos⟩, ?_, rfl⟩
  unfold readExact
  dsimp only
  rw [if_neg hlong, shownChars_eq h]
  refine bind_eq_of_eq_pure (readExactly_paddedDigits h.toNat_lt _) ?_
  refine bind_eq_of_eq_pure (readMark_cons rfl _) ?_
  refine bind_eq_of_eq_pure (readExactly_paddedDigits hmonth _) ?_
  refine bind_eq_of_eq_pure (readMark_cons rfl _) ?_
  refine bind_eq_of_eq_pure (readExactly_paddedDigits hday _) ?_
  dsimp only
  rw [hdate]
  refine bind_eq_of_eq_pure (readMark_cons rfl _) ?_
  refine bind_eq_of_eq_pure (readExactly_paddedDigits hhour _) ?_
  refine bind_eq_of_eq_pure (readMark_cons rfl _) ?_
  refine bind_eq_of_eq_pure (readExactly_paddedDigits hminute _) ?_
  refine bind_eq_of_eq_pure (readMark_cons rfl _) ?_
  refine bind_eq_of_eq_pure (readExactly_paddedDigits hsecond _) ?_
  refine bind_eq_of_eq_pure (x := (0, ['Z'])) rfl ?_
  dsimp only
  rw [hclock]
  refine bind_eq_of_eq_pure (x := (0, [])) rfl ?_
  dsimp only
  rw [dif_pos hnanos]
  exact congrArg Except.ok (ofLocal_zero ⟨t.date, t.second, leap + 0, t.second_lt, hnanos⟩ hnanos)

/-- A shown text is read as the beginning of the second that it shows. -/
theorem ofText_text {t : Timestamp} (h : t.HasStoredYear) : ofText t.text = .ok t.truncate := by
  rw [ofText_eq_ok_iff, text, String.toList_ofList]
  exact ⟨List.getLast?_concat, readExact_shownChars h⟩

theorem truncate_eq_self {t : Timestamp} (h : t.nanos = 0) : t.truncate = t := by
  obtain ⟨date, second, nanos, _, _⟩ := t
  obtain rfl : nanos = 0 := h
  rfl

/-- What can be written are the instants of the years 0 to 9999 at the beginning of a second. -/
theorem exists_ofText_iff {t : Timestamp} :
    (∃ s, ofText s = .ok t) ↔ t.HasStoredYear ∧ t.nanos = 0 := by
  constructor
  · rintro ⟨s, hs⟩
    exact ⟨hasStoredYear_of_ofText hs, nanos_of_ofText hs⟩
  · rintro ⟨hyear, hnanos⟩
    refine ⟨t.text, ?_⟩
    rw [ofText_text hyear, truncate_eq_self hnanos]

/-- An instant that a person wrote lies at the beginning of a second of the years 0 to 9999, and all of
these can be written.  It has one text.  This has twenty characters in the same shape, is also the
stored text, is read as the same instant from both, and lies among the texts of other instants where
the instant lies among them, which is the order of their seconds. -/
theorem written_canonical :
    (∀ t : Timestamp, (∃ s, ofText s = .ok t) ↔ t.HasStoredYear ∧ t.nanos = 0) ∧
    (∀ (s : String) (t : Timestamp), ofText s = .ok t →
      t.nanos = 0 ∧ t.text.length = 20 ∧ HasShape shownShape t.text.toList ∧
        ofText t.text = .ok t ∧ t.storedText = t.text ∧ ofJson t.toJson = .ok t) ∧
    ∀ (r s : String) (t u : Timestamp), ofText r = .ok t → ofText s = .ok u →
      compare t u = compare t.text u.text ∧ compare t u = compare t.unixSeconds u.unixSeconds := by
  refine ⟨fun t => exists_ofText_iff, ?_, ?_⟩
  · intro s t hs
    have hyear := hasStoredYear_of_ofText hs
    have htruncate := truncate_eq_self (nanos_of_ofText hs)
    have hshape := hasShape_shownChars hyear
    refine ⟨nanos_of_ofText hs, ?_, ?_, ?_, ?_, ofJson_toJson hyear.inCalendar⟩
    · rw [text, String.length_ofList, ← hshape.length_eq]
      rfl
    · rw [text, String.toList_ofList]
      exact hshape
    · rw [ofText_text hyear, htruncate]
    · rw [← htruncate]
      exact congrArg String.ofList t.storedChars_truncate
  · intro r s t u hr hs
    have hseconds : compare t u = compare t.unixSeconds u.unixSeconds := by
      rw [compare_unixSeconds, nanos_of_ofText hr, nanos_of_ofText hs, Std.compare_self,
        Ordering.then_eq]
    have htexts : compare t.text u.text = compare t.unixSeconds u.unixSeconds := by
      rw [compare_text (hasStoredYear_of_ofText hr) (hasStoredYear_of_ofText hs),
        nanos_of_ofText hr, nanos_of_ofText hs, Std.compare_self, Ordering.then_eq]
    exact ⟨hseconds.trans htexts.symm, hseconds⟩

/-- A leap second with a fraction and the second behind it, each written in a form of its own. -/
theorem written_canonical_leap_second :
    ofText "2016-12-31t23:59:60.75Z" = .ok (ofUnixSeconds 1483228799) ∧
      ofText "2017-01-01 00:00:00.000Z" = .ok (ofUnixSeconds 1483228800) ∧
      (ofUnixSeconds 1483228799).text = "2016-12-31T23:59:59Z" ∧
      ofText (ofUnixSeconds 1483228799).text = .ok (ofUnixSeconds 1483228799) ∧
      ofJson (ofUnixSeconds 1483228799).toJson = .ok (ofUnixSeconds 1483228799) ∧
      compare (ofUnixSeconds 1483228799).text (ofUnixSeconds 1483228800).text = .lt := by
  have hleap : ofText "2016-12-31t23:59:60.75Z" = .ok (ofUnixSeconds 1483228799) := by
    decide +kernel
  have hnext : ofText "2017-01-01 00:00:00.000Z" = .ok (ofUnixSeconds 1483228800) := by
    decide +kernel
  obtain ⟨_, htexts, horders⟩ := written_canonical
  obtain ⟨_, _, _, htext, _, hstored⟩ := htexts _ _ hleap
  have horder := (horders _ _ _ _ hleap hnext).1
  have hless : compare (ofUnixSeconds 1483228799) (ofUnixSeconds 1483228800) = .lt := by
    decide +kernel
  exact ⟨hleap, hnext, by decide +kernel, htext, hstored, horder.symm.trans hless⟩

end Timestamp

end CanonicalTime

end ArchiveDeposit
