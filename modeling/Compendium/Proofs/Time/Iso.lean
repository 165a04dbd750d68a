import Mathlib.Algebra.Group.Nat.Defs
import Mathlib.Data.List.Basic
import Compendium.Time.Iso

/-!
A time that is written is read back as it was, but for an offset of less than a second, which is read as
none; and of two times in universal time the earlier one comes first in writing as well.
-/
namespace Compendium.Time

open Compendium.Number (digits tenTo)

/-! Digits. -/

theorem digits_eq (n : Nat) : digits n = Nat.toDigits 10 n := by simp [digits]

theorem length_padded {w n : Nat} (hw : 0 < w) (h : n < 10 ^ w) : (padded w n).length = w := by
  have hlen : (Nat.toDigits 10 n).length ≤ w := (Nat.length_toDigits_le_iff (by omega) hw).2 h
  simp only [padded, digits_eq, List.length_append, List.length_replicate]
  omega

theorem isDigit_of_mem_padded {w n : Nat} {c : Char} (h : c ∈ padded w n) : c.isDigit = true := by
  rw [padded, List.mem_append] at h
  rcases h with h | h
  · rw [List.eq_of_mem_replicate h]
    rfl
  · exact Nat.isDigit_of_mem_toDigits (by omega) (by omega) (digits_eq n ▸ h)

theorem ofDigitChars_padded (w n : Nat) : Nat.ofDigitChars 10 (padded w n) 0 = n := by
  rw [padded, digits_eq, Nat.ofDigitChars_append, Nat.ofDigitChars_replicate_zero, Nat.mul_zero,
    Nat.ofDigitChars_ten_toDigits]

/-- What is written before other text does not begin with anything but a digit. -/
theorem head?_padded {w n : Nat} (hw : 0 < w) (h : n < 10 ^ w) {c : Char} (hc : c.isDigit = false) (r : List Char) :
    (padded w n ++ r).head? ≠ some c := by
  cases hp : padded w n with
  | nil =>
    have := length_padded hw h
    rw [hp, List.length_nil] at this
    omega
  | cons d ds =>
    intro he
    have hd : d = c := Option.some.inj he
    rw [← hd, isDigit_of_mem_padded (hp ▸ List.mem_cons_self)] at hc
    cases hc

theorem readDigits?_digits {ds : List Char} (h : ∀ c ∈ ds, c.isDigit = true) (v : Nat) (r : List Char) :
    readDigits? ds.length v (ds ++ r) = some (Nat.ofDigitChars 10 ds v, r) := by
  induction ds generalizing v with
  | nil => rfl
  | cons d ds ih =>
    rw [List.forall_mem_cons] at h
    rw [List.length_cons, List.cons_append, readDigits?, if_pos h.1, ih h.2, Nat.ofDigitChars_cons, Nat.mul_comm]
    rfl

/-- A number comes back from its digits, whatever follows them. -/
theorem readDigits?_padded {w n : Nat} (hw : 0 < w) (h : n < 10 ^ w) (r : List Char) :
    readDigits? w 0 (padded w n ++ r) = some (n, r) := by
  have hd := readDigits?_digits (fun c (hc : c ∈ padded w n) => isDigit_of_mem_padded hc) 0 r
  rwa [length_padded hw h, ofDigitChars_padded] at hd

/-! Reading what was written. -/

/-- A time as it comes back from its written form. -/
def kept (t : Time) : Time := { t with offset := t.offset.map keptOffset }

/-- Only an offset of less than a second is lost. -/
theorem keptOffset_eq_self_iff {o : Int} : keptOffset o = o ↔ o = 0 ∨ Compendium.second ≤ o.natAbs := by
  have hsecond : Compendium.second = 1000000 := rfl
  rw [keptOffset]
  split <;> omega

/-- A time is kept as it is, unless it has an offset of less than a second. -/
theorem kept_eq_self_iff {t : Time} : t.kept = t ↔
    ∀ o, t.offset = some o → o = 0 ∨ Compendium.second ≤ o.natAbs := by
  obtain ⟨year, month, day, hour, minute, second, micro, offset⟩ := t
  cases offset with
  | none => simp [kept]
  | some o => simp [kept, keptOffset_eq_self_iff]

theorem isValid_kept {t : Time} (h : t.isValid = true) : t.kept.isValid = true := by
  have hsecond : Compendium.second = 1000000 := rfl
  simp only [isValid, kept, Bool.and_eq_true] at h ⊢
  refine ⟨h.1, ?_⟩
  cases ho : t.offset with
  | none => rfl
  | some o =>
    have hbounds := h.2
    simp only [ho, Option.map_some, Option.all_some, keptOffset, Bool.and_eq_true, decide_eq_true_eq] at hbounds ⊢
    split <;> omega

section
variable {t : Time}

def clockChars (t : Time) : List Char :=
  padded 2 t.hour ++ ':' :: (padded 2 t.minute ++ ':' :: (padded 2 t.second ++ fractionText t.micro))

def zoneChars (t : Time) : List Char :=
  match t.offset with
  | some o => offsetText o
  | none => []

theorem isoChars_eq (t : Time) :
    t.isoChars = padded 4 t.year ++ '-' :: (padded 2 t.month ++ '-' :: (padded 2 t.day ++
      'T' :: (t.clockChars ++ t.zoneChars))) := by
  rw [isoChars, clockChars, zoneChars]
  cases t.offset <;> simp only [List.append_assoc, List.cons_append]

structure Bounded (t : Time) : Prop where
  year : t.year < 10 ^ 4
  month : t.month < 10 ^ 2
  day : t.day < 10 ^ 2
  hour : t.hour < 10 ^ 2
  minute : t.minute < 10 ^ 2
  second : t.second < 10 ^ 2
  micro : t.micro < 10 ^ 6

theorem bounded_of_isValid (h : t.isValid = true) : t.Bounded := by
  simp only [isValid, Calendar.isDate, Bool.and_eq_true, decide_eq_true_eq] at h
  obtain ⟨⟨⟨⟨⟨⟨⟨⟨⟨⟨-, hy⟩, -⟩, hm⟩, -⟩, hd⟩, hh⟩, hmin⟩, hs⟩, hmic⟩, -⟩ := h
  have hdays : Calendar.daysInMonth t.year t.month ≤ 31 := by
    simp only [Calendar.daysInMonth]
    split
    · split <;> omega
    · split <;> omega
  have hsecond : Compendium.second = 1000000 := rfl
  constructor <;> omega

/-- A date with dashes takes ten characters. -/
theorem dateLength?_dashed {y m : Nat} (hy : y < 10 ^ 4) (hm : m < 10 ^ 2) {r : List Char} (hr : r ≠ []) :
    dateLength? (padded 4 y ++ '-' :: (padded 2 m ++ r)) = some 10 := by
  have hylen := length_padded (by omega) hy
  have hmlen := length_padded (by omega) hm
  have hrlen := List.length_pos_iff.2 hr
  have hlen : (padded 4 y ++ '-' :: (padded 2 m ++ r)).length = 7 + r.length := by
    simp only [List.length_append, List.length_cons, hylen, hmlen]
    omega
  have h4 : (padded 4 y ++ '-' :: (padded 2 m ++ r))[4]? = some '-' := by
    rw [List.getElem?_append_right (by omega), hylen]
    rfl
  have h5 : (padded 4 y ++ '-' :: (padded 2 m ++ r))[5]? ≠ some 'W' := by
    rw [List.getElem?_append_right (by omega), hylen, List.getElem?_cons_succ, ← List.head?_eq_getElem?]
    exact head?_padded (by omega) hm rfl r
  rw [dateLength?]
  simp only [hlen, h4, h5, if_true, if_false]
  rw [if_neg (by omega), if_neg (by omega)]

theorem readDate?_dashed {y m d : Nat} (hy : y < 10 ^ 4) (hm : m < 10 ^ 2) (hd : d < 10 ^ 2) (length : Nat)
    (r : List Char) :
    readDate? length (padded 4 y ++ '-' :: (padded 2 m ++ '-' :: (padded 2 d ++ r))) = some (y, m, d) := by
  have hw := head?_padded (by omega) hm (c := 'W') rfl ('-' :: (padded 2 d ++ r))
  simp only [readDate?, readDigits?_padded (by omega : 0 < 4) hy, Option.bind_eq_bind, Option.bind_some,
    List.head?_cons,
    decide_true, if_true, List.drop_succ_cons, List.drop_zero, hw, if_false, readDigits?_padded (by omega : 0 < 2) hm,
    dropDash?, readDigits?_padded (by omega : 0 < 2) hd]
  rfl

/-- Six digits at the end of a clock are its microseconds. -/
theorem readFraction?_padded {n : Nat} (hn : n < 10 ^ 6) (h m s : Nat) {r : List Char}
    (hr : r.head?.all fun c => !c.isDigit) :
    readFraction? h m s 6 (padded 6 n ++ r) = some ⟨h, m, s, n, !r.isEmpty⟩ := by
  have hdrop : r.dropWhile Char.isDigit = r := by
    cases r with
    | nil => rfl
    | cons c r =>
      have hc : c.isDigit = false := by simpa using hr
      rw [List.dropWhile_cons_of_neg (by simp [hc])]
  simp only [readFraction?, Nat.min_self, readDigits?_padded (by omega : 0 < 6) hn, Option.bind_eq_bind,
    Option.bind_some, hdrop]
  simp [tenTo]

/-- A clock that was written is read, up to where other text begins. -/
theorem readClock?_written {h m s micro : Nat} (hh : h < 10 ^ 2) (hm : m < 10 ^ 2) (hs : s < 10 ^ 2)
    (hmicro : micro < 10 ^ 6) {r : List Char} (hr : r.head?.all fun c => !c.isDigit) :
    readClock? (8 + (fractionText micro).length)
      (padded 2 h ++ ':' :: (padded 2 m ++ ':' :: (padded 2 s ++ (fractionText micro ++ r)))) =
        some ⟨h, m, s, micro, !r.isEmpty⟩ := by
  have hcolon : isPoint (some ':') = false := rfl
  simp only [readClock?, readDigits?_padded (by omega : 0 < 2) hh, Option.bind_eq_bind, Option.bind_some,
    List.head?_cons, hcolon, decide_true, Bool.false_eq_true, if_true, if_false, List.drop_succ_cons, List.drop_zero]
  rw [if_neg (by omega)]
  simp only [readDigits?_padded (by omega : 0 < 2) hm, Option.bind_some, List.head?_cons, hcolon, Bool.false_eq_true,
    if_false]
  rw [if_neg (by omega)]
  rw [if_neg (by decide)]
  simp only [List.drop_succ_cons, List.drop_zero, readDigits?_padded (by omega : 0 < 2) hs, Option.bind_some]
  by_cases h0 : micro = 0
  · have hnone : fractionText micro = [] := if_pos h0
    simp only [hnone, List.nil_append, List.length_nil]
    rw [if_pos (by omega), h0]
    rfl
  · have hpoint : fractionText micro = '.' :: padded 6 micro := if_neg h0
    have hlen : (padded 6 micro).length = 6 := length_padded (by omega) hmicro
    simp only [hpoint, List.length_cons, hlen, List.cons_append, List.head?_cons, List.drop_succ_cons, List.drop_zero]
    rw [if_neg (by omega), if_pos (by decide)]
    exact readFraction?_padded hmicro h m s hr

theorem readClock?_short {h m : Nat} (hh : h < 10 ^ 2) (hm : m < 10 ^ 2) :
    readClock? 5 (padded 2 h ++ ':' :: padded 2 m) = some ⟨h, m, 0, 0, false⟩ := by
  have hcolon : isPoint (some ':') = false := rfl
  have hread := readDigits?_padded (by omega : 0 < 2) hm []
  rw [List.append_nil] at hread
  simp only [readClock?, readDigits?_padded (by omega : 0 < 2) hh, Option.bind_eq_bind, Option.bind_some,
    List.head?_cons, hcolon, decide_true, Bool.false_eq_true, if_true, if_false, List.drop_succ_cons, List.drop_zero]
  rw [if_neg (by omega)]
  simp only [hread, Option.bind_some]
  rfl

theorem length_clockChars (h : t.Bounded) : t.clockChars.length = 8 + (fractionText t.micro).length := by
  simp only [clockChars, List.length_append, List.length_cons, length_padded (by omega : 0 < 2) h.hour,
    length_padded (by omega : 0 < 2) h.minute, length_padded (by omega : 0 < 2) h.second]
  omega

theorem not_zoneMark_of_isDigit {c : Char} (h : c.isDigit = true) : isZoneMark c = false := by
  have hne : ∀ d : Char, d.isDigit = false → c ≠ d := fun d hd he => by rw [he, hd] at h; cases h
  simp [isZoneMark, hne '+' rfl, hne '-' rfl, hne 'Z' rfl]

theorem not_zoneMark_of_mem_clockChars (t : Time) : ∀ c ∈ t.clockChars, isZoneMark c = false := by
  have hpadded : ∀ w n, ∀ c ∈ padded w n, isZoneMark c = false := fun w n c hc =>
    not_zoneMark_of_isDigit (isDigit_of_mem_padded hc)
  have hfraction : ∀ c ∈ fractionText t.micro, isZoneMark c = false := by
    intro c hc
    rw [fractionText] at hc
    split at hc
    · cases hc
    · rcases List.mem_cons.1 hc with rfl | hc
      · rfl
      · exact hpadded _ _ c hc
  intro c hc
  simp only [clockChars, List.mem_append, List.mem_cons] at hc
  rcases hc with hc | rfl | hc | rfl | hc | hc
  · exact hpadded _ _ c hc
  · rfl
  · exact hpadded _ _ c hc
  · rfl
  · exact hpadded _ _ c hc
  · exact hfraction c hc

/-- What is written of an offset: its sign and the clock of its size. -/
theorem offsetText_clock {o : Int} (ho : o.natAbs < 86400 * Compendium.second) :
    ∃ r, offsetText o = (if o < 0 then '-' else '+') :: r ∧
      readClock? r.length r = some ⟨o.natAbs / Compendium.second / 3600, o.natAbs / Compendium.second / 60 % 60,
        o.natAbs / Compendium.second % 60, o.natAbs % Compendium.second, false⟩ := by
  have hsecond : Compendium.second = 1000000 := rfl
  generalize hn : o.natAbs = n at ho ⊢
  simp only [offsetText, hn, hsecond] at ho ⊢
  have hh : n / 1000000 / 3600 < 10 ^ 2 := by omega
  have hm : n / 1000000 / 60 % 60 < 10 ^ 2 := by omega
  have hs : n / 1000000 % 60 < 10 ^ 2 := by omega
  have hmicro : n % 1000000 < 10 ^ 6 := by omega
  by_cases hwhole : n % (60 * 1000000) = 0
  · refine ⟨padded 2 (n / 1000000 / 3600) ++ ':' :: padded 2 (n / 1000000 / 60 % 60), ?_, ?_⟩
    · rw [if_pos hwhole, List.append_nil, List.cons_append]
    · have hzero : n / 1000000 % 60 = 0 ∧ n % 1000000 = 0 := by omega
      have hread := readClock?_short hh hm
      simp only [List.length_append, List.length_cons, length_padded (by omega : 0 < 2) hh,
        length_padded (by omega : 0 < 2) hm, hzero.1, hzero.2]
      exact hread
  · refine ⟨padded 2 (n / 1000000 / 3600) ++ ':' :: (padded 2 (n / 1000000 / 60 % 60) ++
      ':' :: (padded 2 (n / 1000000 % 60) ++ (fractionText (n % 1000000) ++ []))), ?_, ?_⟩
    · rw [if_neg hwhole]
      simp
    · have hread := readClock?_written hh hm hs hmicro (r := []) rfl
      have hlen : (padded 2 (n / 1000000 / 3600) ++ ':' :: (padded 2 (n / 1000000 / 60 % 60) ++
          ':' :: (padded 2 (n / 1000000 % 60) ++ (fractionText (n % 1000000) ++ [])))).length =
          8 + (fractionText (n % 1000000)).length := by
        simp only [List.length_append, List.length_cons, List.length_nil, length_padded (by omega : 0 < 2) hh,
          length_padded (by omega : 0 < 2) hm, length_padded (by omega : 0 < 2) hs]
        omega
      rw [hlen]
      exact hread

theorem natAbs_offset (o : Int) :
    (if (if o < 0 then '-' else '+') = '-' then -(o.natAbs : Int) else (o.natAbs : Int)) = o := by
  by_cases ho : o < 0
  · simp only [ho, if_true]
    omega
  · rw [if_neg ho, if_neg (by decide)]
    omega

theorem natAbs_lt_of_isValid (h : t.isValid = true) {o : Int} (ho : t.offset = some o) :
    o.natAbs < 86400 * Compendium.second := by
  simp only [isValid, ho, Option.all_some, Bool.and_eq_true, decide_eq_true_eq] at h
  obtain ⟨-, hlow, hhigh⟩ := h
  have hsecond : Compendium.second = 1000000 := rfl
  rw [hsecond] at hlow hhigh ⊢
  omega

/-- The mark of an offset ends the clock before it. -/
theorem readTimeOfDay?_written (h : t.isValid = true) :
    ∃ c, readTimeOfDay? (t.clockChars ++ t.zoneChars) = some (c, t.offset.map keptOffset) ∧
      (c.hour, c.minute, c.second, c.micro) = (t.hour, t.minute, t.second, t.micro) := by
  have hb := bounded_of_isValid h
  have hclock : ∀ r : List Char, (r.head?.all fun c => !c.isDigit) = true →
      readClock? t.clockChars.length (t.clockChars ++ r) =
        some ⟨t.hour, t.minute, t.second, t.micro, !r.isEmpty⟩ := by
    intro r hr
    have hread := readClock?_written hb.hour hb.minute hb.second hb.micro hr
    rw [length_clockChars hb]
    simpa only [clockChars, List.append_assoc, List.cons_append] using hread
  have hbefore : ∀ c ∈ t.clockChars, (!isZoneMark c) = true := fun c hc => by
    rw [not_zoneMark_of_mem_clockChars t c hc]
    rfl
  cases ho : t.offset with
  | none =>
    have hz : t.zoneChars = [] := by rw [zoneChars, ho]
    have htake : (t.clockChars ++ []).takeWhile (fun c => !isZoneMark c) = t.clockChars := by
      rw [List.takeWhile_append_of_pos hbefore, List.takeWhile_nil, List.append_nil]
    refine ⟨⟨t.hour, t.minute, t.second, t.micro, false⟩, ?_, rfl⟩
    have hread := hclock [] rfl
    simp only [readTimeOfDay?, hz, htake, hread, Option.bind_eq_bind, Option.bind_some, List.drop_left]
    rfl
  | some o =>
    obtain ⟨r, hr, hzone⟩ := offsetText_clock (natAbs_lt_of_isValid h ho)
    have hmark : isZoneMark (if o < 0 then '-' else '+') = true := by split <;> rfl
    have hdigit : (!(if o < 0 then '-' else '+').isDigit) = true := by split <;> rfl
    have hutc : (if o < 0 then '-' else '+') ≠ 'Z' := by split <;> decide
    have hsign := natAbs_offset o
    have hz : t.zoneChars = (if o < 0 then '-' else '+') :: r := by
      rw [zoneChars, ho]
      exact hr
    generalize (if o < 0 then '-' else '+') = mark at *
    have htake : (t.clockChars ++ mark :: r).takeWhile (fun c => !isZoneMark c) = t.clockChars := by
      rw [List.takeWhile_append_of_pos hbefore, List.takeWhile_cons_of_neg (by simp [hmark]), List.append_nil]
    have hread := hclock (mark :: r) (by simpa using hdigit)
    refine ⟨⟨t.hour, t.minute, t.second, t.micro, true⟩, ?_, rfl⟩
    simp only [readTimeOfDay?, hz, htake, hread, Option.bind_eq_bind, Option.bind_some, List.drop_left]
    have hsize : (((o.natAbs / Compendium.second / 3600 : Nat) : Int) * 60 +
        ((o.natAbs / Compendium.second / 60 % 60 : Nat) : Int)) * 60 +
        ((o.natAbs / Compendium.second % 60 : Nat) : Int) = ((o.natAbs / Compendium.second : Nat) : Int) := by
      omega
    have hwhole : ((o.natAbs / Compendium.second : Nat) : Int) * (Compendium.second : Int) +
        ((o.natAbs % Compendium.second : Nat) : Int) = (o.natAbs : Int) := by
      rw [Int.mul_comm]
      exact_mod_cast Nat.div_add_mod o.natAbs Compendium.second
    simp only [hzone, Option.bind_some, Bool.false_eq_true, if_false, hsize, hwhole, hsign]
    rfl

/-- A time that is written is read back as it is kept. -/
theorem ofIso?_iso (h : t.isValid = true) : ofIso? t.iso = some t.kept := by
  have hb := bounded_of_isValid h
  obtain ⟨c, hread, hc⟩ := readTimeOfDay?_written h
  simp only [Prod.mk.injEq] at hc
  obtain ⟨hh, hm, hs, hmicro⟩ := hc
  have hrest : (padded 4 t.year ++ '-' :: (padded 2 t.month ++ '-' :: (padded 2 t.day ++ 'T' ::
      (t.clockChars ++ t.zoneChars)))).drop 10 = 'T' :: (t.clockChars ++ t.zoneChars) := by
    have hfront : (padded 4 t.year ++ '-' :: (padded 2 t.month ++ '-' :: padded 2 t.day)).length = 10 := by
      simp only [List.length_append, List.length_cons, length_padded (by omega : 0 < 4) hb.year,
        length_padded (by omega : 0 < 2) hb.month, length_padded (by omega : 0 < 2) hb.day]
    have hdrop : ((padded 4 t.year ++ '-' :: (padded 2 t.month ++ '-' :: padded 2 t.day)) ++
        'T' :: (t.clockChars ++ t.zoneChars)).drop 10 = 'T' :: (t.clockChars ++ t.zoneChars) := List.drop_left' hfront
    simpa only [List.append_assoc, List.cons_append] using hdrop
  simp only [ofIso?, iso, String.toList_ofList, ofIsoChars?, isoChars_eq,
    dateLength?_dashed hb.year hb.month (List.cons_ne_nil _ _), readDate?_dashed hb.year hb.month hb.day, hrest,
    Option.bind_eq_bind, Option.bind_some]
  simp only [List.isEmpty_cons, Bool.false_eq_true, if_false, List.drop_succ_cons, List.drop_zero, hread,
    Option.bind_some, hh, hm, hs, hmicro]
  exact if_pos (isValid_kept h)

end

/-! The order of what is written. -/

theorem ofDigitChars_lt {ds : List Char} (h : ∀ c ∈ ds, c.isDigit = true) :
    Nat.ofDigitChars 10 ds 0 < 10 ^ ds.length := by
  induction ds with
  | nil => exact Nat.zero_lt_one
  | cons d ds ih =>
    rw [List.forall_mem_cons] at h
    have hd : d.toNat ≤ 57 := (Char.isDigit_iff_toNat.1 h.1).2
    have hle : 10 ^ ds.length * (d.toNat - 48) ≤ 10 ^ ds.length * 9 := Nat.mul_le_mul_left _ (by omega)
    have := ih h.2
    rw [Nat.ofDigitChars_cons, Nat.ofDigitChars_eq_ofDigitChars_zero, List.length_cons, Nat.pow_succ]
    change 10 ^ ds.length * (10 * 0 + (d.toNat - 48)) + _ < _
    rw [Nat.mul_zero, Nat.zero_add]
    omega

/-- Digits of one length are in the order of their numbers, and then what follows them decides. -/
theorem digits_append_lt_iff {ds es : List Char} (hlen : ds.length = es.length) (hd : ∀ c ∈ ds, c.isDigit = true)
    (he : ∀ c ∈ es, c.isDigit = true) (r r' : List Char) :
    ds ++ r < es ++ r' ↔ Nat.ofDigitChars 10 ds 0 < Nat.ofDigitChars 10 es 0 ∨
      Nat.ofDigitChars 10 ds 0 = Nat.ofDigitChars 10 es 0 ∧ r < r' := by
  induction ds generalizing es with
  | nil =>
    cases es with
    | nil => simp
    | cons e es => cases hlen
  | cons d ds ih =>
    cases es with
    | nil => cases hlen
    | cons e es =>
      rw [List.forall_mem_cons] at hd he
      have hlen : ds.length = es.length := Nat.succ.inj hlen
      have hdigit : 48 ≤ d.toNat ∧ d.toNat ≤ 57 := Char.isDigit_iff_toNat.1 hd.1
      have hdigit' : 48 ≤ e.toNat ∧ e.toNat ≤ 57 := Char.isDigit_iff_toNat.1 he.1
      have hx := ofDigitChars_lt hd.2
      have hy := ofDigitChars_lt he.2
      have hnum : ∀ (c : Char) (cs : List Char),
          Nat.ofDigitChars 10 (c :: cs) 0 = 10 ^ cs.length * (c.toNat - 48) + Nat.ofDigitChars 10 cs 0 := by
        intro c cs
        rw [Nat.ofDigitChars_cons, Nat.ofDigitChars_eq_ofDigitChars_zero, Nat.mul_zero, Nat.zero_add]
        rfl
      rw [List.cons_append, List.cons_append, List.cons_lt_cons_iff, ih hlen hd.2 he.2, hnum, hnum, hlen]
      rw [hlen] at hx
      rcases Nat.lt_trichotomy d.toNat e.toNat with hlt | heq | hgt
      · have hle : 10 ^ es.length * (d.toNat - 48) + 10 ^ es.length ≤ 10 ^ es.length * (e.toNat - 48) := by
          rw [← Nat.mul_succ]
          exact Nat.mul_le_mul_left _ (by omega)
        exact iff_of_true (.inl hlt) (.inl (by omega))
      · have hde : d = e := Char.toNat_inj.1 heq
        subst hde
        have hirr : ¬ d < d := Nat.lt_irrefl d.toNat
        simp only [hirr, false_or, true_and, Nat.add_lt_add_iff_left, Nat.add_left_cancel_iff]
      · have hle : 10 ^ es.length * (e.toNat - 48) + 10 ^ es.length ≤ 10 ^ es.length * (d.toNat - 48) := by
          rw [← Nat.mul_succ]
          exact Nat.mul_le_mul_left _ (by omega)
        refine iff_of_false ?_ (by omega)
        rintro (hlt | ⟨rfl, -⟩)
        · exact absurd hgt (Nat.lt_asymm hlt)
        · exact absurd hgt (Nat.lt_irrefl _)

/-- Numbers of one width are in the order of their texts. -/
theorem padded_append_lt_iff {w m n : Nat} (hw : 0 < w) (hm : m < 10 ^ w) (hn : n < 10 ^ w) (r r' : List Char) :
    padded w m ++ r < padded w n ++ r' ↔ m < n ∨ m = n ∧ r < r' := by
  have h := digits_append_lt_iff ((length_padded hw hm).trans (length_padded hw hn).symm)
    (fun c hc => isDigit_of_mem_padded hc) (fun c hc => isDigit_of_mem_padded hc) r r'
  rwa [ofDigitChars_padded, ofDigitChars_padded] at h

/-- A fraction that is left out comes before one that is written, as `+` comes before the point. -/
theorem fraction_lt_iff {m n : Nat} (hm : m < 10 ^ 6) (hn : n < 10 ^ 6) :
    fractionText m ++ offsetText 0 < fractionText n ++ offsetText 0 ↔ m < n := by
  have hirr : ¬ offsetText 0 < offsetText 0 := List.lt_irrefl _
  have hzone : offsetText 0 = "+00:00".toList := by decide
  by_cases hm0 : m = 0 <;> by_cases hn0 : n = 0
  · simp only [fractionText, hm0, hn0, if_true, List.nil_append, hirr, Nat.lt_irrefl]
  · simp only [fractionText, hm0, hn0, if_true, if_false, List.nil_append, hzone]
    exact iff_of_true (List.cons_lt_cons_iff.2 (.inl (by decide))) (by omega)
  · simp only [fractionText, hm0, hn0, if_true, if_false, List.nil_append, hzone]
    refine iff_of_false (fun h => ?_) (by omega)
    rcases List.cons_lt_cons_iff.1 h with h | ⟨h, -⟩
    · exact absurd h (by decide)
    · exact absurd h (by decide)
  · simp only [fractionText, hm0, hn0, if_false, List.cons_append]
    rw [List.cons_lt_cons_self, padded_append_lt_iff (by omega) hm hn]
    exact or_iff_left fun h => hirr h.2

/-- Whether a time comes before another one, part by part. -/
def Earlier (a b : Time) : Prop :=
  a.year < b.year ∨ a.year = b.year ∧
    (a.month < b.month ∨ a.month = b.month ∧ (a.day < b.day ∨ a.day = b.day ∧
    (a.hour < b.hour ∨ a.hour = b.hour ∧ (a.minute < b.minute ∨ a.minute = b.minute ∧
      (a.second < b.second ∨ a.second = b.second ∧ a.micro < b.micro)))))

/-- Times in universal time are in the order of their written forms. -/
theorem iso_lt_iff {a b : Time} (ha : a.isValid = true) (hb : b.isValid = true) (hoa : a.offset = some 0)
    (hob : b.offset = some 0) : a.iso < b.iso ↔ Earlier a b := by
  have hA := bounded_of_isValid ha
  have hB := bounded_of_isValid hb
  have hza : a.zoneChars = offsetText 0 := by rw [zoneChars, hoa]
  have hzb : b.zoneChars = offsetText 0 := by rw [zoneChars, hob]
  have h2 : 0 < 2 := by omega
  rw [String.lt_iff, iso, iso, String.toList_ofList, String.toList_ofList, isoChars_eq, isoChars_eq]
  simp only [clockChars, hza, hzb, List.append_assoc, List.cons_append, List.cons_lt_cons_self,
    padded_append_lt_iff (by omega : 0 < 4) hA.year hB.year, padded_append_lt_iff h2 hA.month hB.month,
    padded_append_lt_iff h2 hA.day hB.day, padded_append_lt_iff h2 hA.hour hB.hour,
    padded_append_lt_iff h2 hA.minute hB.minute, padded_append_lt_iff h2 hA.second hB.second,
    fraction_lt_iff hA.micro hB.micro, Earlier]

/-! The order of points in time. -/

theorem daysBeforeYear_succ {y : Nat} (hy : 0 < y) :
    Calendar.daysBeforeYear (y + 1) = Calendar.daysBeforeYear y + (if Calendar.isLeap y then 366 else 365) := by
  obtain ⟨k, rfl⟩ := Nat.exists_eq_succ_of_ne_zero (Nat.pos_iff_ne_zero.1 hy)
  have hle : k / 100 ≤ k / 4 := Nat.div_le_div_left (by omega) (by omega)
  have h100 : (k + 1) % 100 = 0 → (k + 1) % 4 = 0 := by omega
  have h400 : (k + 1) % 400 = 0 → (k + 1) % 100 = 0 := by omega
  simp only [Calendar.daysBeforeYear, Calendar.isLeap, Nat.succ_eq_add_one, Nat.add_sub_cancel, Nat.succ_div,
    Nat.dvd_iff_mod_eq_zero]
  generalize k / 4 = fours at hle ⊢
  generalize k / 100 = centuries at hle ⊢
  generalize k / 400 = cycles
  by_cases hfour : (k + 1) % 4 = 0
  · by_cases hcentury : (k + 1) % 100 = 0
    · by_cases hcycle : (k + 1) % 400 = 0
      · simp [hfour, hcentury, hcycle]
        omega
      · simp [hfour, hcentury, hcycle]
        omega
    · have hcycle : ¬ (k + 1) % 400 = 0 := fun h => hcentury (h400 h)
      simp [hfour, hcentury, hcycle]
      omega
  · have hcentury : ¬ (k + 1) % 100 = 0 := fun h => hfour (h100 h)
    have hcycle : ¬ (k + 1) % 400 = 0 := fun h => hcentury (h400 h)
    simp [hfour, hcentury, hcycle]
    omega

theorem daysBeforeYear_add_le {y z : Nat} (hy : 0 < y) (h : y < z) :
    Calendar.daysBeforeYear y + (if Calendar.isLeap y then 366 else 365) ≤ Calendar.daysBeforeYear z := by
  induction h with
  | refl => exact Nat.le_of_eq (daysBeforeYear_succ hy).symm
  | step hle ih =>
    rw [daysBeforeYear_succ (Nat.lt_of_lt_of_le hy (Nat.le_of_succ_le hle))]
    exact Nat.le_trans ih (Nat.le_add_right _ _)

theorem daysBeforeMonth_succ (y : Nat) {m : Nat} (hm : 0 < m) :
    Calendar.daysBeforeMonth y (m + 1) = Calendar.daysBeforeMonth y m + Calendar.daysInMonth y m := by
  obtain ⟨k, rfl⟩ := Nat.exists_eq_succ_of_ne_zero (Nat.pos_iff_ne_zero.1 hm)
  simp only [Calendar.daysBeforeMonth, Nat.succ_eq_add_one, Nat.add_sub_cancel, List.range_succ, List.foldl_append,
    List.foldl_cons, List.foldl_nil]

theorem daysBeforeMonth_add_le (y : Nat) {m n : Nat} (hm : 0 < m) (h : m < n) :
    Calendar.daysBeforeMonth y m + Calendar.daysInMonth y m ≤ Calendar.daysBeforeMonth y n := by
  induction h with
  | refl => exact Nat.le_of_eq (daysBeforeMonth_succ y hm).symm
  | step hle ih =>
    rw [daysBeforeMonth_succ y (Nat.lt_of_lt_of_le hm (Nat.le_of_succ_le hle))]
    exact Nat.le_trans ih (Nat.le_add_right _ _)

theorem daysBeforeMonth_thirteen (y : Nat) :
    Calendar.daysBeforeMonth y 13 = if Calendar.isLeap y then 366 else 365 := by
  cases hl : Calendar.isLeap y <;>
    simp [Calendar.daysBeforeMonth, List.range, List.range.loop, Calendar.daysInMonth, hl]

/-- Days count on from date to date. -/
theorem ordinal_lt {y m d y' m' d' : Nat} (h : Calendar.isDate y m d = true) (h' : Calendar.isDate y' m' d' = true)
    (hlt : y < y' ∨ y = y' ∧ (m < m' ∨ m = m' ∧ d < d')) :
    Calendar.ordinal y m d < Calendar.ordinal y' m' d' := by
  simp only [Calendar.isDate, Bool.and_eq_true, decide_eq_true_eq] at h h'
  obtain ⟨⟨⟨⟨⟨hy, -⟩, hm⟩, hm12⟩, hd⟩, hdm⟩ := h
  obtain ⟨⟨⟨⟨⟨-, -⟩, -⟩, -⟩, hd'⟩, -⟩ := h'
  simp only [Calendar.ordinal]
  rcases hlt with hlt | ⟨rfl, hlt | ⟨rfl, hlt⟩⟩
  · have hyear := daysBeforeYear_add_le hy hlt
    have hmonth := daysBeforeMonth_add_le y hm (by omega : m < 13)
    rw [daysBeforeMonth_thirteen] at hmonth
    omega
  · have hmonth := daysBeforeMonth_add_le y hm hlt
    omega
  · omega

/-- On one clock, the earlier time has fewer microseconds behind it. -/
theorem localMicros_lt {a b : Time} (ha : a.isValid = true) (hb : b.isValid = true) (h : Earlier a b) :
    a.localMicros < b.localMicros := by
  have hsecond : Compendium.second = 1000000 := rfl
  simp only [isValid, Bool.and_eq_true, decide_eq_true_eq, hsecond] at ha hb
  obtain ⟨⟨⟨⟨⟨hda, hha⟩, hma⟩, hsa⟩, hua⟩, -⟩ := ha
  obtain ⟨⟨⟨⟨⟨hdb, hhb⟩, hmb⟩, hsb⟩, hub⟩, -⟩ := hb
  have hday : Calendar.ordinal a.year a.month a.day < Calendar.ordinal b.year b.month b.day ∨
      Calendar.ordinal a.year a.month a.day = Calendar.ordinal b.year b.month b.day ∧
        (a.hour < b.hour ∨ a.hour = b.hour ∧ (a.minute < b.minute ∨ a.minute = b.minute ∧
          (a.second < b.second ∨ a.second = b.second ∧ a.micro < b.micro))) := by
    rcases h with h | ⟨hy, h | ⟨hm, h | ⟨hd, h⟩⟩⟩
    · exact .inl (ordinal_lt hda hdb (.inl h))
    · exact .inl (ordinal_lt hda hdb (.inr ⟨hy, .inl h⟩))
    · exact .inl (ordinal_lt hda hdb (.inr ⟨hy, .inr ⟨hm, h⟩⟩))
    · exact .inr ⟨by rw [hy, hm, hd], h⟩
  simp only [localMicros, hsecond]
  omega

/-- Of two times one comes first, unless they have all parts in common. -/
theorem earlier_or (a b : Time) : Earlier a b ∨ Earlier b a ∨ a.localMicros = b.localMicros := by
  by_cases hsame : a.year = b.year ∧ a.month = b.month ∧ a.day = b.day ∧ a.hour = b.hour ∧
    a.minute = b.minute ∧ a.second = b.second ∧ a.micro = b.micro
  · obtain ⟨hy, hmo, hd, hh, hmi, hs, hu⟩ := hsame
    exact .inr (.inr (by rw [localMicros, localMicros, hy, hmo, hd, hh, hmi, hs, hu]))
  · simp only [Earlier]
    omega

/-- In universal time the order of what is written is the order of time. -/
theorem iso_lt_iff_micros {a b : Time} (ha : a.isValid = true) (hb : b.isValid = true) (hoa : a.offset = some 0)
    (hob : b.offset = some 0) : a.iso < b.iso ↔ a.micros < b.micros := by
  rw [iso_lt_iff ha hb hoa hob]
  simp only [micros, hoa, hob, Option.getD_some]
  constructor
  · intro h
    have := localMicros_lt ha hb h
    omega
  · intro h
    rcases earlier_or a b with hab | hba | heq
    · exact hab
    · have := localMicros_lt hb ha hba
      omega
    · omega

end Compendium.Time
