import Mathlib.Data.List.Basic
import Compendium.Json.Printer
import Compendium.Json.Reader
import Compendium.Proofs.Text.Line

/-!
What was written, every character outside ASCII escaped, is read back as it was and stands on one line: texts, lists of
such values, and objects with one field.
-/
namespace Compendium.Json

open Compendium.Text (hexDigit hexDigits hexValue? isLineEnd isOneLine isOneLine_cons isOneLine_append isOneLine_flatMap
  inRanges lineEndRanges)

/-! Escapes. -/

theorem hexValue?_hexDigit : ∀ n < 16, hexValue? (hexDigit n) = some n := by decide

theorem unitEscape_eq (n : Nat) :
    unitEscape n = ['\\', 'u', hexDigit (n / 16 / 16 / 16 % 16), hexDigit (n / 16 / 16 % 16), hexDigit (n / 16 % 16),
      hexDigit (n % 16)] := rfl

/-- The four digits of a unit are read back. -/
theorem unit?_hexDigits {n : Nat} (h : n < 65536) :
    unit? (hexDigit (n / 16 / 16 / 16 % 16)) (hexDigit (n / 16 / 16 % 16)) (hexDigit (n / 16 % 16))
      (hexDigit (n % 16)) = some n := by
  have hlt : ∀ k : Nat, k % 16 < 16 := fun k => Nat.mod_lt k (by omega)
  simp only [unit?, hexValue?_hexDigit _ (hlt _)]
  exact congrArg some (by omega)

/-- A unit that is not the first half of a pair stands for itself, whatever follows. -/
theorem readText_unitEscape {n : Nat} (h : n < 65536) (hn : n < 0xD800 ∨ 0xDC00 ≤ n) (done rest : List Char) :
    readText done (unitEscape n ++ rest) = readText (unitChar n :: done) rest := by
  have hu := unit?_hexDigits h
  have hhigh : ¬ (0xD800 ≤ n ∧ n < 0xDC00) := by omega
  rw [unitEscape_eq]
  generalize hexDigit (n / 16 / 16 / 16 % 16) = a at hu ⊢
  generalize hexDigit (n / 16 / 16 % 16) = b at hu ⊢
  generalize hexDigit (n / 16 % 16) = c at hu ⊢
  generalize hexDigit (n % 16) = d at hu ⊢
  simp only [List.cons_append, List.nil_append]
  rw [readText.eq_def]
  split
  · rename_i heq
    cases heq
  · rename_i heq
    cases heq
  · rename_i e f g h' r heq
    cases heq
    have hnot : ∀ k : Nat, ¬ (0xD800 ≤ n && n < 0xDC00 && 0xDC00 ≤ k && k < 0xE000) = true := fun k hk => by
      simp only [Bool.and_eq_true, decide_eq_true_eq] at hk
      omega
    rw [hu]
    cases unit? e f g h' with
    | none => rfl
    | some k => simp only [if_neg (hnot k)]
  · rename_i heq
    cases heq
    simp only [hu]
  · rename_i hx heq
    cases heq
    exact (hx _ _ _ _ _ rfl rfl).elim
  · rename_i hx heq
    cases heq
    exact (hx _ _ rfl rfl).elim

/-- Two units that make a pair stand for one character. -/
theorem readText_pairEscape {m n : Nat} (hm : 0xD800 ≤ m ∧ m < 0xDC00) (hn : 0xDC00 ≤ n ∧ n < 0xE000)
    (done rest : List Char) :
    readText done (unitEscape m ++ (unitEscape n ++ rest)) = readText (pairChar m n :: done) rest := by
  have hum := unit?_hexDigits (n := m) (by omega)
  have hun := unit?_hexDigits (n := n) (by omega)
  simp only [unitEscape_eq, List.cons_append, List.nil_append]
  rw [readText, hum, hun]
  simp [hm, hn]

theorem toNat_valid (c : Char) : c.toNat < 0xD800 ∨ 0xDFFF < c.toNat ∧ c.toNat < 0x110000 := c.valid

/-- No character is half of a pair. -/
theorem unitChar_toNat (c : Char) : unitChar c.toNat = c := by
  have hv : ¬ (0xD800 ≤ c.toNat ∧ c.toNat < 0xE000) := by
    have := toNat_valid c
    omega
  rw [unitChar, if_neg (by simpa using hv), Char.ofNat_toNat]

/-- A character escaped by number is read back, as a pair of units where it takes two. -/
theorem readText_numericEscape (c : Char) (done rest : List Char) :
    readText done (numericEscape c ++ rest) = readText (c :: done) rest := by
  have hv := toNat_valid c
  rw [numericEscape]
  by_cases hc : c.toNat < 0x10000
  · rw [if_pos hc, readText_unitEscape hc (by omega), unitChar_toNat]
  · have hpair : pairChar (0xD800 + (c.toNat - 0x10000) / 0x400) (0xDC00 + (c.toNat - 0x10000) % 0x400) = c := by
      rw [pairChar]
      have : 0x10000 + (0xD800 + (c.toNat - 0x10000) / 0x400 - 0xD800) * 0x400 +
          (0xDC00 + (c.toNat - 0x10000) % 0x400 - 0xDC00) = c.toNat := by omega
      rw [this, Char.ofNat_toNat]
    rw [if_neg hc, List.append_assoc, readText_pairEscape (by omega) (by omega), hpair]

/-- A character that is not escaped stands for itself. -/
theorem readText_plain {c : Char} (hq : c ≠ '"') (hb : c ≠ '\\') (hc : ¬ c.toNat < 32) (done rest : List Char) :
    readText done (c :: rest) = readText (c :: done) rest := by
  rw [readText.eq_def]
  split
  · rename_i heq
    cases heq
  · rename_i heq
    cases heq
    exact absurd rfl hq
  all_goals
    rename_i heq
    cases heq
  · exact absurd rfl hb
  · exact absurd rfl hb
  · exact absurd rfl hb
  · rw [if_neg (by simp [hc, hb])]

theorem readText_escaped (c : Char) (done rest : List Char) :
    readText done (escaped true c ++ rest) = readText (c :: done) rest := by
  have hsimple : ∀ x, simpleEscape? x = some c → x ≠ 'u' →
      readText done ('\\' :: x :: rest) = readText (c :: done) rest := by
    intro x hx hu
    rw [readText.eq_def]
    split
    · rename_i heq
      cases heq
    · rename_i heq
      cases heq
    · rename_i heq
      cases heq
      exact absurd rfl hu
    · rename_i heq
      cases heq
      exact absurd rfl hu
    · rename_i heq
      cases heq
      simp only [hx]
    · rename_i hany heq
      cases heq
      exact (hany _ _ rfl rfl).elim
  unfold escaped
  split
  · subst_vars
    exact hsimple '"' rfl (by decide)
  split
  · subst_vars
    exact hsimple '\\' rfl (by decide)
  split
  · subst_vars
    exact hsimple 'n' rfl (by decide)
  split
  · subst_vars
    exact hsimple 'r' rfl (by decide)
  split
  · subst_vars
    exact hsimple 't' rfl (by decide)
  split
  · subst_vars
    exact hsimple 'b' rfl (by decide)
  split
  · subst_vars
    exact hsimple 'f' rfl (by decide)
  split
  · exact readText_numericEscape c done rest
  split
  · exact readText_numericEscape c done rest
  · exact readText_plain ‹_› ‹_› ‹_› done rest

/-! Texts and lists of texts. -/

theorem readText_escapes (cs done rest : List Char) :
    readText done (cs.flatMap (escaped true) ++ '"' :: rest) = some (done.reverse ++ cs, rest) := by
  induction cs generalizing done with
  | nil => rw [List.flatMap_nil, List.nil_append, readText, List.append_nil]
  | cons c cs ih =>
    rw [List.flatMap_cons, List.append_assoc, readText_escaped, ih, List.reverse_cons, List.append_assoc]
    rfl

/-- A written text is read back up to its closing mark, whatever follows. -/
theorem readText_written (x : String) (rest : List Char) :
    readText [] (x.toList.flatMap (escaped true) ++ '"' :: rest) = some (x.toList, rest) := by
  simpa using readText_escapes x.toList [] rest

theorem writeText_eq (x : String) (rest : List Char) :
    writeText true x ++ rest = '"' :: (x.toList.flatMap (escaped true) ++ '"' :: rest) := by simp [writeText]

/-- A value that is read back from its written form whatever follows, with fuel for each character of it. -/
structure ReadBack (v : Json) : Prop where
  opens : ∃ c r, write spaced v = c :: r ∧ isSpace c = false ∧ c ≠ ']'
  reads : ∀ fuel rest, (write spaced v).length ≤ fuel → readValue fuel (write spaced v ++ rest) = some (v, rest)

namespace ReadBack

variable {v : Json}

theorem skipSpace_eq (h : ReadBack v) (rest : List Char) :
    skipSpace (write spaced v ++ rest) = write spaced v ++ rest := by
  obtain ⟨c, r, hw, hc, -⟩ := h.opens
  rw [hw, List.cons_append, skipSpace, List.dropWhile_cons_of_neg (by simp [hc])]

protected theorem text (x : String) : ReadBack (.text x) where
  opens := ⟨'"', x.toList.flatMap (escaped true) ++ ['"'], rfl, rfl, by decide⟩
  reads fuel rest hfuel := by
    change (writeText true x).length ≤ fuel at hfuel
    change readValue fuel (writeText true x ++ rest) = _
    cases fuel with
    | zero => simp [writeText] at hfuel
    | succ fuel =>
      rw [writeText_eq, readValue, readText_written]
      simp

/-- Items that follow an item are read up to the bracket that closes the list. -/
theorem readItems_written {vs : List Json} (hvs : ∀ w ∈ vs, ReadBack w) :
    ∀ v, ReadBack v → ∀ done fuel rest, (write spaced v ++ writeItems spaced vs).length ≤ fuel →
      readItems fuel done (write spaced v ++ (writeItems spaced vs ++ rest)) =
        some (.list (done.reverse ++ v :: vs), rest) := by
  induction vs with
  | nil =>
    intro v hv done fuel rest hfuel
    rw [List.length_append] at hfuel
    cases fuel with
    | zero => simp [writeItems] at hfuel
    | succ fuel =>
      have hread := hv.reads fuel (writeItems spaced [] ++ rest) (Nat.le_of_lt_succ hfuel)
      rw [readItems, hread]
      simp [writeItems, skipSpace, isSpace]
  | cons w vs ih =>
    intro v hv done fuel rest hfuel
    obtain ⟨hw, hvs⟩ := List.forall_mem_cons.1 hvs
    have hitems : writeItems spaced (w :: vs) = ',' :: ' ' :: (write spaced w ++ writeItems spaced vs) := rfl
    rw [hitems, List.length_append, List.length_cons, List.length_cons] at hfuel
    cases fuel with
    | zero => cases hfuel
    | succ fuel =>
      have hread := hv.reads fuel (',' :: ' ' :: (write spaced w ++ (writeItems spaced vs ++ rest))) (by omega)
      have hspace : skipSpace (' ' :: (write spaced w ++ (writeItems spaced vs ++ rest))) =
          write spaced w ++ (writeItems spaced vs ++ rest) := hw.skipSpace_eq _
      have hcomma : skipSpace (',' :: ' ' :: (write spaced w ++ (writeItems spaced vs ++ rest))) =
          ',' :: ' ' :: (write spaced w ++ (writeItems spaced vs ++ rest)) := rfl
      rw [hitems, List.cons_append, List.cons_append, List.append_assoc, readItems, hread]
      simp only [hcomma, hspace]
      rw [ih hvs w hw (v :: done) fuel rest (by omega), List.reverse_cons, List.append_assoc, List.singleton_append]

protected theorem list {vs : List Json} (h : ∀ v ∈ vs, ReadBack v) : ReadBack (.list vs) where
  opens := by
    cases vs with
    | nil => exact ⟨'[', [']'], rfl, rfl, by decide⟩
    | cons v vs => exact ⟨'[', write spaced v ++ writeItems spaced vs, rfl, rfl, by decide⟩
  reads fuel rest hfuel := by
    cases vs with
    | nil =>
      cases fuel with
      | zero => cases hfuel
      | succ fuel => rfl
    | cons v vs =>
      obtain ⟨hv, hvs⟩ := List.forall_mem_cons.1 h
      have hwrite : write spaced (.list (v :: vs)) = '[' :: (write spaced v ++ writeItems spaced vs) := rfl
      rw [hwrite, List.length_cons] at hfuel
      cases fuel with
      | zero => cases hfuel
      | succ fuel =>
        have hitems := readItems_written hvs v hv [] fuel rest (Nat.le_of_succ_le_succ hfuel)
        obtain ⟨c, r, hw, hc, hbracket⟩ := hv.opens
        have hspace := hv.skipSpace_eq (writeItems spaced vs ++ rest)
        rw [hwrite, List.cons_append, List.append_assoc, readValue]
        simp only [hspace]
        rw [hw, List.cons_append] at hitems ⊢
        split
        · rename_i heq
          cases heq
          exact absurd rfl hbracket
        · exact hitems

/-- An object with one field. -/
protected theorem field (key : String) (h : ReadBack v) : ReadBack (.object [(key, v)]) where
  opens := ⟨'\x7b', writeText true key ++ spaced.colon ++ write spaced v ++ writeFields spaced [], rfl,
    rfl, by decide⟩
  reads fuel rest hfuel := by
    have hwrite : write spaced (.object [(key, v)]) =
        '\x7b' :: (writeText true key ++ (':' :: ' ' :: (write spaced v ++ ['\x7d']))) := by
      simp [write, writeFields, spaced]
    rw [hwrite] at hfuel ⊢
    simp only [writeText, List.length_cons, List.length_append, List.length_nil] at hfuel
    obtain ⟨fuel, rfl⟩ : ∃ k, fuel = k + 2 := ⟨fuel - 2, by omega⟩
    have hread := h.reads fuel ('\x7d' :: rest) (by omega)
    have hcolon : ∀ r, skipSpace (':' :: r) = ':' :: r := fun _ => rfl
    have hspace : skipSpace (' ' :: (write spaced v ++ '\x7d' :: rest)) = write spaced v ++ '\x7d' :: rest :=
      h.skipSpace_eq _
    have hbrace : skipSpace ('\x7d' :: rest) = '\x7d' :: rest := rfl
    have hfields : readFields (fuel + 1) []
        (writeText true key ++ ':' :: ' ' :: (write spaced v ++ '\x7d' :: rest)) = some (.object [(key, v)], rest) := by
      rw [writeText_eq, readFields, readText_written]
      simp only [hcolon, hspace, hread, hbrace, String.ofList_toList]
      rfl
    rw [writeText_eq] at hfields
    rw [List.cons_append, List.append_assoc, writeText_eq, List.cons_append, List.cons_append, List.append_assoc]
    exact hfields

protected theorem parse? (h : ReadBack v) : Json.parse? (print spaced v).toList = some v := by
  have hspace := h.skipSpace_eq []
  have hread := h.reads ((write spaced v).length + 1) [] (Nat.le_succ _)
  rw [List.append_nil] at hspace hread
  rw [print, String.toList_ofList, Json.parse?, hspace, hread]
  rfl

end ReadBack

/-! What is written stands on one line. -/

theorem isOneLine_unitEscape (n : Nat) : isOneLine (unitEscape n) = true := by
  have hdigit : ∀ k < 16, isLineEnd (hexDigit k) = false := by decide
  have hmod (k : Nat) : isLineEnd (hexDigit (k % 16)) = false := hdigit _ (Nat.mod_lt k (by decide))
  simp only [unitEscape_eq, isOneLine_cons, hmod]
  rfl

theorem isOneLine_numericEscape (c : Char) : isOneLine (numericEscape c) = true := by
  unfold numericEscape
  dsimp only
  split <;> simp [isOneLine_unitEscape]

theorem isOneLine_escaped (c : Char) : isOneLine (escaped true c) = true := by
  unfold escaped
  -- the seven characters with an escape of their own
  iterate 7
    split
    · rfl
  split
  · exact isOneLine_numericEscape c
  split
  · exact isOneLine_numericEscape c
  next hlow hhigh =>
    have hend : isLineEnd c = false := by
      simp only [Bool.true_and, decide_eq_true_eq] at hhigh
      simp only [isLineEnd, inRanges, lineEndRanges, List.any_cons, List.any_nil, Bool.or_false, Bool.or_eq_false_iff,
        Bool.and_eq_false_iff, decide_eq_false_iff_not]
      omega
    simp [hend]

/-- Every line end in a text is escaped. -/
theorem isOneLine_writeText (x : String) : isOneLine (writeText true x) = true := by
  have hmark : isLineEnd '"' = false := rfl
  simp [writeText, isOneLine_flatMap, isOneLine_escaped, hmark]

theorem isOneLine_writeItems {vs : List Json} (h : ∀ v ∈ vs, isOneLine (write spaced v) = true) :
    isOneLine (writeItems spaced vs) = true := by
  induction vs with
  | nil => rfl
  | cons v vs ih =>
    obtain ⟨hv, hvs⟩ := List.forall_mem_cons.1 h
    have hcomma : isOneLine spaced.comma = true := rfl
    simp only [writeItems, isOneLine_append, hcomma, hv, ih hvs, Bool.and_self]

theorem isOneLine_list {vs : List Json} (h : ∀ v ∈ vs, isOneLine (write spaced v) = true) :
    isOneLine (write spaced (.list vs)) = true := by
  cases vs with
  | nil => rfl
  | cons v vs =>
    obtain ⟨hv, hvs⟩ := List.forall_mem_cons.1 h
    have hbracket : isLineEnd '[' = false := rfl
    simp [write, hbracket, hv, isOneLine_writeItems hvs]

theorem isOneLine_field (key : String) {v : Json} (h : isOneLine (write spaced v) = true) :
    isOneLine (write spaced (.object [(key, v)])) = true := by
  have hopen : isLineEnd '\x7b' = false := rfl
  have hcolon : isOneLine spaced.colon = true := rfl
  have hclose : isOneLine (writeFields spaced []) = true := rfl
  have hkey : isOneLine (writeText spaced.asciiOnly key) = true := isOneLine_writeText key
  simp only [write, List.cons_append, isOneLine_cons, isOneLine_append, hopen, hkey, hcolon, h, hclose]
  rfl

/-! Lists of texts. -/

theorem readBack_texts (xs : List String) : ReadBack (.list (xs.map .text)) :=
  .list (List.forall_mem_map.2 fun x _ => .text x)

theorem isOneLine_write_texts (xs : List String) : isOneLine (write spaced (.list (xs.map .text))) = true :=
  isOneLine_list (List.forall_mem_map.2 fun x _ => isOneLine_writeText x)

/-- A list of texts is read back from its written form. -/
theorem parse?_print_texts (xs : List String) :
    parse? (print spaced (.list (xs.map .text))).toList = some (.list (xs.map .text)) := (readBack_texts xs).parse?

end Compendium.Json
