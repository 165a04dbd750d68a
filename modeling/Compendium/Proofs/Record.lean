import Mathlib.Data.List.Basic
import Compendium.Proofs.Text.Line
import Compendium.Proofs.Time.Iso
import Compendium.Record

/-!
What the line of a log record tells. A value is put between quotation marks when it is empty or holds a space, but
nothing in a message or a value is escaped: a line end there breaks the line, and a quotation mark can end what it
stands in. Main statement: which records stand on one line, and which share their line with no other record.
-/
namespace Compendium.Record

open Compendium.Text (isLineEnd isOneLine isOneLine_cons isOneLine_append isOneLine_flatMap isOneLine_iff isOneLine_nil)

/-! Fields as characters. -/

def marked (v : List Char) : List Char := if v = [] ∨ ' ' ∈ v then '"' :: (v ++ ['"']) else v

def fieldChars (f : String × String) : List Char := ' ' :: (f.1.toList ++ '=' :: marked f.2.toList)

def fieldsChars (fs : List (String × String)) : List Char := fs.flatMap fieldChars

@[simp] theorem fieldsChars_nil : fieldsChars [] = [] := rfl

@[simp] theorem fieldsChars_cons (f : String × String) (fs : List (String × String)) :
    fieldsChars (f :: fs) = fieldChars f ++ fieldsChars fs := rfl

@[simp] theorem fieldsChars_append (fs gs : List (String × String)) :
    fieldsChars (fs ++ gs) = fieldsChars fs ++ fieldsChars gs := List.flatMap_append

/-- What follows a value in a line: nothing, or a space. -/
theorem head?_fieldsChars (fs : List (String × String)) : ∀ c ∈ (fieldsChars fs).head?, c = ' ' := by
  cases fs with
  | nil => simp
  | cons f fs => simp [fieldChars]

theorem fieldsChars_eq_nil {fs : List (String × String)} : fieldsChars fs = [] ↔ fs = [] := by
  cases fs with
  | nil => simp
  | cons f fs => simp [fieldChars]

/-- The name of a field: no space, quotation mark, equals sign or line end stands in it, and it is not the name of an
attribute that belongs to the record itself or to the beginning of the line. Every other identifier is such a name. -/
@[mk_iff]
structure IsFieldName (k : String) : Prop where
  space : ' ' ∉ k.toList
  quote : '"' ∉ k.toList
  equals : '=' ∉ k.toList
  oneLine : isOneLine k.toList = true
  shown : k ∉ ownAttributes
  apart : k ∉ leadingAttributes

instance (k : String) : Decidable (IsFieldName k) := decidable_of_iff' _ (isFieldName_iff k)

/-- The fields of a record, each name once. Which of the names there may be, such as identifiers only, is left open. -/
@[mk_iff]
structure IsFields (isName : String → Prop) (fs : List (String × String)) : Prop where
  names : ∀ f ∈ fs, IsFieldName f.1
  used : ∀ f ∈ fs, isName f.1
  distinct : (fs.map Prod.fst).Nodup

instance (isName : String → Prop) [DecidablePred isName] (fs : List (String × String)) :
    Decidable (IsFields isName fs) := decidable_of_iff' _ (isFields_iff isName fs)

theorem IsFields.sublist {isName : String → Prop} {fs gs : List (String × String)} (h : IsFields isName gs)
    (hs : fs.Sublist gs) : IsFields isName fs where
  names f hf := h.names f (hs.subset hf)
  used f hf := h.used f (hs.subset hf)
  distinct := h.distinct.sublist (hs.map _)

/-! Where values end. -/

/-- A value that is shown as it is and does not end in a quotation mark. -/
@[mk_iff]
structure IsBare (v : List Char) : Prop where
  nonempty : v ≠ []
  space : ' ' ∉ v
  last : v.getLast? ≠ some '"'

instance (v : List Char) : Decidable (IsBare v) := decidable_of_iff' _ (isBare_iff v)

theorem IsBare.marked_eq {v : List Char} (h : IsBare v) : marked v = v :=
  if_neg fun hv => hv.elim h.nonempty h.space

/-- All other values end in a quotation mark as they are shown. -/
theorem marked_of_not_isBare {v : List Char} (h : ¬IsBare v) : ∃ w, marked v = w ++ ['"'] := by
  rw [marked]
  split
  · exact ⟨'"' :: v, rfl⟩
  next hv =>
    rw [not_or] at hv
    have hlast : v.getLast? = some '"' := by
      by_contra hlast
      exact h ⟨hv.1, hv.2, hlast⟩
    exact ⟨v.dropLast, (List.dropLast_append_getLast? '"' hlast).symm⟩

/-- A text in which no quotation mark ends a value: each is followed by something other than a space. -/
def NoneCloses (s : List Char) : Prop :=
  ∀ before after, s = before ++ '"' :: after → ∃ c, after.head? = some c ∧ c ≠ ' '

theorem NoneCloses.append {s t : List Char} (hs : '"' ∉ s) (ht : NoneCloses t) : NoneCloses (s ++ t) := by
  intro before after he
  rcases List.append_eq_append_iff.1 he with ⟨as, rfl, hrest⟩ | ⟨bs, rfl, hrest⟩
  · exact ht as after hrest
  · cases bs with
    | nil => exact ht [] after (by simpa using hrest.symm)
    | cons b bs =>
      obtain rfl : '"' = b := (List.cons.inj hrest).1
      exact absurd (by simp) hs

/-- In a bare value a quotation mark is followed by more of the value. -/
theorem NoneCloses.bare {v t : List Char} (hv : IsBare v) (ht : NoneCloses t) : NoneCloses (v ++ t) := by
  intro before after he
  rcases List.append_eq_append_iff.1 he with ⟨as, rfl, hrest⟩ | ⟨bs, rfl, hrest⟩
  · exact ht as after hrest
  · cases bs with
    | nil => exact ht [] after (by simpa using hrest.symm)
    | cons b bs =>
      obtain ⟨rfl, rfl⟩ := List.cons.inj hrest
      cases bs with
      | nil => exact absurd (by simp) hv.last
      | cons c bs =>
        refine ⟨c, rfl, ?_⟩
        rintro rfl
        exact hv.space (by simp)

/-- Values that are shown bare end no message by a quotation mark. -/
theorem noneCloses_fieldsChars {fs : List (String × String)} (hfs : ∀ f ∈ fs, IsFieldName f.1)
    (hbare : ∀ f ∈ fs, IsBare f.2.toList) : NoneCloses (fieldsChars fs) := by
  induction fs with
  | nil =>
    intro before after he
    simp at he
  | cons f fs ih =>
    obtain ⟨hf, hfs⟩ := List.forall_mem_cons.1 hfs
    obtain ⟨hb, hbare⟩ := List.forall_mem_cons.1 hbare
    have hname : '"' ∉ ' ' :: (f.1.toList ++ ['=']) := by simpa using hf.quote
    have heq : fieldsChars (f :: fs) = (' ' :: (f.1.toList ++ ['='])) ++ (f.2.toList ++ fieldsChars fs) := by
      simp [fieldChars, hb.marked_eq]
    rw [heq]
    exact .append hname (.bare hb (ih hfs hbare))

/-- Where no quotation mark ends a value, none is followed by fields. -/
theorem NoneCloses.not_followed {s before : List Char} (h : NoneCloses s) (fs : List (String × String)) :
    s ≠ before ++ '"' :: fieldsChars fs := by
  intro he
  obtain ⟨c, hc, hne⟩ := h before _ he
  exact hne (head?_fieldsChars fs c hc)

/-- Values without spaces are told apart from what follows them. -/
theorem append_fields_inj {v w : List Char} (hv : ' ' ∉ v) (hw : ' ' ∉ w) {fs gs : List (String × String)}
    (h : v ++ fieldsChars fs = w ++ fieldsChars gs) : v = w ∧ fieldsChars fs = fieldsChars gs := by
  have hcut {v : List Char} (hv : ' ' ∉ v) (fs : List (String × String)) :
      (v ++ fieldsChars fs).takeWhile (· != ' ') = v := by
    rw [List.takeWhile_append_of_pos fun c hc => by
      simp only [bne_iff_ne, ne_eq]
      rintro rfl
      exact hv hc]
    cases fs with
    | nil => simp
    | cons f fs => simp [fieldChars]
  have hvw : v = w := by rw [← hcut hv fs, h, hcut hw gs]
  subst hvw
  exact ⟨rfl, List.append_cancel_left h⟩

/-- Two texts that go up to the same mark and do not hold it are told apart from what follows the mark. -/
theorem append_cons_inj {mark : Char} {s t s' t' : List Char} (hs : mark ∉ s) (ht : mark ∉ t)
    (h : s ++ mark :: s' = t ++ mark :: t') : s = t ∧ s' = t' := by
  induction s generalizing t with
  | nil =>
    cases t with
    | nil => exact ⟨rfl, (List.cons.inj h).2⟩
    | cons d t => exact absurd (List.mem_cons.2 (.inl (List.cons.inj h).1)) ht
  | cons c s ih =>
    cases t with
    | nil => exact absurd (List.mem_cons.2 (.inl (List.cons.inj h).1.symm)) hs
    | cons d t =>
      obtain ⟨rfl, hcons⟩ := List.cons.inj h
      rw [List.mem_cons, not_or] at hs ht
      obtain ⟨rfl, hrest⟩ := ih hs.2 ht.2 hcons
      exact ⟨rfl, hrest⟩

/-- The name of a field ends at its equals sign. -/
theorem field_name_inj {f g : String × String} (hf : IsFieldName f.1) (hg : IsFieldName g.1) {s t : List Char}
    (h : fieldChars f ++ s = fieldChars g ++ t) :
    f.1 = g.1 ∧ marked f.2.toList ++ s = marked g.2.toList ++ t := by
  simp only [fieldChars, List.cons_append, List.append_assoc, List.cons.injEq, true_and] at h
  obtain ⟨hname, hrest⟩ := append_cons_inj hf.equals hg.equals h
  exact ⟨String.toList_inj.1 hname, hrest⟩

/-- A field with a bare value is told apart from what follows it. -/
theorem bare_field_inj {f g : String × String} (hf : IsFieldName f.1) (hg : IsFieldName g.1) (hb : IsBare f.2.toList)
    {fs gs : List (String × String)} (hnone : NoneCloses (fieldsChars fs))
    (h : fieldChars f ++ fieldsChars fs = fieldChars g ++ fieldsChars gs) :
    f = g ∧ fieldsChars fs = fieldsChars gs := by
  obtain ⟨hname, hvalue⟩ := field_name_inj hf hg h
  rw [hb.marked_eq, marked] at hvalue
  split at hvalue
  · rw [← List.cons_append, List.append_assoc, List.singleton_append] at hvalue
    exact absurd hvalue ((NoneCloses.bare hb hnone).not_followed gs)
  next hg =>
    rw [not_or] at hg
    obtain ⟨hv, hrest⟩ := append_fields_inj hb.space hg.2 hvalue
    exact ⟨Prod.ext hname (String.toList_inj.1 hv), hrest⟩

/-- Where a space stands in a field behind its name, the field ends in a quotation mark. -/
theorem getLast?_fieldChars {f : String × String} (hf : IsFieldName f.1) {before after : List Char}
    (h : fieldChars f = before ++ ' ' :: after) (hne : before ≠ []) : (' ' :: after).getLast? = some '"' := by
  obtain ⟨c, before, rfl⟩ := List.exists_cons_of_ne_nil hne
  have htail : f.1.toList ++ '=' :: marked f.2.toList = before ++ ' ' :: after := (List.cons.inj h).2
  have hspace : ' ' ∈ f.1.toList ++ '=' :: marked f.2.toList := htail ▸ by simp
  have hmarked : ' ' ∈ marked f.2.toList := by simpa [hf.space] using hspace
  have hlast : (fieldChars f).getLast? = some '"' := by
    rw [marked] at hmarked
    split at hmarked
    next hv =>
      rw [fieldChars, marked, if_pos hv]
      simp [List.getLast?_append, List.getLast?_cons]
    next hv => exact absurd (.inr hmarked) hv
  rw [h, List.getLast?_append] at hlast
  simpa [List.getLast?_cons] using hlast

/-- At the end of a line, fields with bare values can only be read as themselves. -/
theorem fields_behind {fs : List (String × String)} (hfs : ∀ f ∈ fs, IsFieldName f.1)
    (hbare : ∀ f ∈ fs, IsBare f.2.toList) {hs : List (String × String)} (hhs : ∀ f ∈ hs, IsFieldName f.1)
    {p : List Char} (h : fieldsChars hs = p ++ fieldsChars fs) :
    ∃ gs, p = fieldsChars gs ∧ hs = gs ++ fs := by
  induction hs generalizing p fs with
  | nil =>
    obtain ⟨rfl, hnil⟩ := List.append_eq_nil_iff.1 h.symm
    obtain rfl := fieldsChars_eq_nil.1 hnil
    exact ⟨[], rfl, rfl⟩
  | cons g hs ih =>
    obtain ⟨hg, hnames⟩ := List.forall_mem_cons.1 hhs
    rw [fieldsChars_cons] at h
    rcases List.append_eq_append_iff.1 h with ⟨rest, rfl, hrest⟩ | ⟨rest, hfield, hrest⟩
    -- what stands before the fields goes on behind the first one
    · obtain ⟨gs, rfl, rfl⟩ := ih hfs hbare hnames hrest
      exact ⟨g :: gs, rfl, rfl⟩
    -- what stands before the fields ends in the first one
    cases rest with
    | nil =>
      obtain ⟨gs, hgs, rfl⟩ := ih hfs hbare hnames (p := []) hrest.symm
      obtain rfl := fieldsChars_eq_nil.1 hgs.symm
      exact ⟨[g], by simpa using hfield.symm, rfl⟩
    | cons c rest =>
      obtain rfl : c = ' ' := head?_fieldsChars fs c (by rw [hrest]; rfl)
      by_cases hp : p = []
      · subst hp
        cases fs with
        | nil => cases hrest
        | cons f fs =>
          obtain ⟨hf, hfs⟩ := List.forall_mem_cons.1 hfs
          obtain ⟨hb, hbare⟩ := List.forall_mem_cons.1 hbare
          obtain ⟨rfl, htail⟩ := bare_field_inj hf hg hb (noneCloses_fieldsChars hfs hbare) h.symm
          obtain ⟨gs, hgs, rfl⟩ := ih hfs hbare hnames (p := []) htail.symm
          obtain rfl := fieldsChars_eq_nil.1 hgs.symm
          exact ⟨[], rfl, rfl⟩
      · have hlast := getLast?_fieldChars hg hfield hp
        have hclose : fieldsChars fs = (' ' :: rest).dropLast ++ '"' :: fieldsChars hs := by
          rw [List.append_cons, List.dropLast_append_getLast? '"' hlast]
          exact hrest
        exact absurd hclose ((noneCloses_fieldsChars hfs hbare).not_followed hs)

/-! Lines. -/

def saying (r : Record) (message : String) (fields : List (String × String)) : Record :=
  { r with message := message, attributes := r.attributes ++ fields.map (fun f => (f.1, .text f.2)), failure := none }

/-- A record that has no fields yet: what attributes it has are shown at the beginning of the line. Its duration, if
it has one, can be shown. -/
structure IsOpen (r : Record) : Prop where
  leading : ∀ a ∈ r.attributes, a.1 ∈ leadingAttributes
  duration : r.durationDefect? = none

def opening (now : Time) (current : Option String) (r : Record) : String :=
  "t=" ++ now.iso ++ " level=" ++ r.level ++ " trace=" ++ traceText current r ++ " mod=" ++ lastPart r.source ++
    " op=" ++ operationText r ++ durationText r.duration? ++ " msg=\""

theorem toList_fieldText (f : String × String) : (fieldText (f.1, .text f.2)).toList = fieldChars f := by
  have hmark : (f.2.isEmpty || f.2.toList.contains ' ') = true ↔ f.2.toList = [] ∨ ' ' ∈ f.2.toList := by simp
  rw [fieldText, rendered]
  simp only [Json.display, String.toList_append, fieldChars, marked, hmark]
  split <;> simp

section
variable {isName : String → Prop}

theorem attribute?_saying {r : Record} {message : String} {fs : List (String × String)} (hfs : IsFields isName fs)
    {key : String} (hkey : key ∈ leadingAttributes) : (r.saying message fs).attribute? key = r.attribute? key := by
  have hnone : (fs.map fun f => (f.1, Json.text f.2)).find? (fun f => f.1 = key) = none := by
    rw [List.find?_eq_none, List.forall_mem_map]
    intro f hf he
    exact (hfs.names f hf).apart (of_decide_eq_true he ▸ hkey)
  rw [attribute?, saying, List.find?_append, hnone, Option.or_none, attribute?]

theorem fieldsText_saying {r : Record} (hr : r.IsOpen) {message : String} {fs : List (String × String)}
    (hfs : IsFields isName fs) : (fieldsText (r.saying message fs)).toList = fieldsChars fs := by
  have hlead : r.attributes.filter (fun f => !ownAttributes.contains f.1 && !leadingAttributes.contains f.1) = [] := by
    rw [List.filter_eq_nil_iff]
    intro a ha
    simp [hr.leading a ha]
  have hshown : (fs.map fun f => (f.1, Json.text f.2)).filter
      (fun f => !ownAttributes.contains f.1 && !leadingAttributes.contains f.1) = fs.map fun f => (f.1, .text f.2) := by
    rw [List.filter_eq_self, List.forall_mem_map]
    intro f hf
    simp [(hfs.names f hf).shown, (hfs.names f hf).apart]
  rw [fieldsText, saying, List.filter_append, hlead, hshown, List.nil_append, List.map_map, String.toList_join,
    List.flatMap_map]
  exact List.flatMap_congr fun f _ => toList_fieldText f

/-- The line of a record without a failure. -/
theorem toList_line {r : Record} (h : r.failure = none) (now : Time) (current : Option String) :
    (r.line now current).toList =
      (opening now current r).toList ++ (r.message.toList ++ '"' :: (fieldsText r).toList) := by
  have hline : r.line now current = opening now current r ++ r.message ++ "\"" ++ fieldsText r ++ "" := by
    delta line
    rw [h]
    simp only [opening]
  rw [hline]
  simp

/-- The opening of a line hangs neither on the message nor on the fields. -/
theorem opening_saying {r : Record} {message : String} {fs : List (String × String)} (hfs : IsFields isName fs)
    (now : Time) (current : Option String) : opening now current (r.saying message fs) = opening now current r := by
  have htrace : traceText current (r.saying message fs) = traceText current r := by
    simp only [traceText, traceText.own, attribute?_saying hfs (show "trace_id" ∈ leadingAttributes by decide)]
  have hoperation : operationText (r.saying message fs) = operationText r := by
    simp only [operationText, attribute?_saying hfs (show "op" ∈ leadingAttributes by decide)]
    rfl
  have hduration : (r.saying message fs).duration? = r.duration? := by
    simp only [duration?, attribute?_saying hfs (show "ms" ∈ leadingAttributes by decide),
      attribute?_saying hfs (show "duration_ms" ∈ leadingAttributes by decide)]
  rw [opening, htrace, hoperation, hduration, opening]
  rfl

/-- What a line tells behind its opening: the message up to the mark that ends it, and the fields. -/
def telling (message : String) (fs : List (String × String)) : List Char := message.toList ++ '"' :: fieldsChars fs

/-! Records on one line. -/

theorem isLineEnd_of_isDigit {c : Char} (h : c.isDigit = true) : isLineEnd c = false := by
  have hzero : '0'.toNat = 48 := rfl
  have hnine : '9'.toNat = 57 := rfl
  have hdigit := Char.isDigit_iff_toNat.1 h
  simp only [isLineEnd, Text.inRanges, Text.lineEndRanges, List.any_cons, List.any_nil, Bool.or_false,
    Bool.or_eq_false_iff, Bool.and_eq_false_iff, decide_eq_false_iff_not]
  omega

theorem isOneLine_digits (n : Nat) : isOneLine (Number.digits n) = true := by
  rw [Time.digits_eq]
  exact isOneLine_iff.2 fun c hc => isLineEnd_of_isDigit (Nat.isDigit_of_mem_toDigits (by omega) (by omega) hc)

theorem isOneLine_padded (width n : Nat) : isOneLine (Time.padded width n) = true :=
  isOneLine_iff.2 fun _ hc => isLineEnd_of_isDigit (Time.isDigit_of_mem_padded hc)

theorem isOneLine_fractionText (micro : Nat) : isOneLine (Time.fractionText micro) = true := by
  have hpoint : isLineEnd '.' = false := rfl
  rw [Time.fractionText]
  split <;> simp [hpoint, isOneLine_padded]

theorem isOneLine_offsetText (offset : Int) : isOneLine (Time.offsetText offset) = true := by
  have hcolon : isLineEnd ':' = false := rfl
  have hsign : isLineEnd (if offset < 0 then '-' else '+') = false := by split <;> rfl
  simp only [Time.offsetText, isOneLine_append, isOneLine_cons, hsign, hcolon, isOneLine_padded, Bool.not_false,
    Bool.true_and]
  split <;> simp [hcolon, isOneLine_padded, isOneLine_fractionText]

theorem isOneLine_iso (t : Time) : isOneLine t.iso.toList = true := by
  have hdash : isLineEnd '-' = false := rfl
  have hcolon : isLineEnd ':' = false := rfl
  have hday : isLineEnd 'T' = false := rfl
  have hzone : isOneLine t.zoneChars = true := by
    rw [Time.zoneChars]
    cases t.offset with
    | none => rfl
    | some o => exact isOneLine_offsetText o
  rw [Time.iso, String.toList_ofList, Time.isoChars_eq, Time.clockChars]
  simp [hdash, hcolon, hday, hzone, isOneLine_padded, isOneLine_fractionText]

theorem isOneLine_placed (places n : Nat) : isOneLine (Number.placed places n) = true := by
  have hpoint : isLineEnd '.' = false := rfl
  have hzeros (count : Nat) : isOneLine (List.replicate count '0') = true :=
    isOneLine_iff.2 fun c hc => isLineEnd_of_isDigit (List.eq_of_mem_replicate hc ▸ rfl)
  rw [Number.placed]
  split <;> simp [hpoint, hzeros, isOneLine_digits]

theorem isOneLine_fixed (places : Nat) (x : Float) : isOneLine (Number.fixed places x).toList = true := by
  have hdash : isLineEnd '-' = false := rfl
  rw [Number.fixed]
  split
  · rfl
  · split <;> rfl
  · simp only [String.toList_ofList]
    split <;> simp [hdash, isOneLine_placed]

theorem isOneLine_durationText (v : Option Json) : isOneLine (durationText v).toList = true := by
  have hlead : isOneLine " ms=".toList = true := rfl
  unfold durationText
  split
  · rw [String.toList_append, isOneLine_append, hlead, isOneLine_fixed, Bool.and_true]
  · rw [String.toList_append, isOneLine_append, hlead, isOneLine_fixed, Bool.and_true]
  · rfl

/-- What comes before the message stands on one line if what is told there of the record does. -/
theorem isOneLine_opening (r : Record) (now : Time) (current : Option String) :
    isOneLine (opening now current r).toList = (isOneLine r.level.toList && isOneLine (traceText current r).toList &&
      isOneLine (lastPart r.source).toList && isOneLine (operationText r).toList) := by
  have htime : isOneLine "t=".toList = true := rfl
  have hlevel : isOneLine " level=".toList = true := rfl
  have htrace : isOneLine " trace=".toList = true := rfl
  have hsource : isOneLine " mod=".toList = true := rfl
  have hoperation : isOneLine " op=".toList = true := rfl
  have hmessage : isOneLine " msg=\"".toList = true := rfl
  simp only [opening, String.toList_append, isOneLine_append, isOneLine_iso, isOneLine_durationText, htime, hlevel,
    htrace, hsource, hoperation, hmessage, Bool.true_and, Bool.and_true]

theorem isOneLine_marked (v : List Char) : isOneLine (marked v) = isOneLine v := by
  have hquote : isLineEnd '"' = false := rfl
  rw [marked]
  split <;> simp [hquote]

theorem isOneLine_fieldsChars {fs : List (String × String)} (hfs : IsFields isName fs) :
    isOneLine (fieldsChars fs) = true ↔ ∀ f ∈ fs, isOneLine f.2.toList = true := by
  have hspace : isLineEnd ' ' = false := rfl
  have hequals : isLineEnd '=' = false := rfl
  rw [fieldsChars, isOneLine_flatMap, List.all_eq_true]
  refine forall₂_congr fun f hf => ?_
  simp [fieldChars, hspace, hequals, (hfs.names f hf).oneLine, isOneLine_marked]

section
variable {r : Record} {m m' : String} {fs fs' : List (String × String)}

theorem toList_line_saying (hr : r.IsOpen) (hfs : IsFields isName fs) (now : Time) (current : Option String) :
    ((r.saying m fs).line now current).toList =
      (opening now current r).toList ++ telling m fs := by
  rw [toList_line rfl, opening_saying hfs, fieldsText_saying hr hfs]
  rfl

/-- A line is one line exactly if its opening, the message and each value are. -/
theorem isOneLine_line_iff (hr : r.IsOpen) (hfs : IsFields isName fs) (now : Time) (current : Option String) :
    isOneLine ((r.saying m fs).line now current).toList = true ↔
      isOneLine (opening now current r).toList = true ∧ isOneLine m.toList = true ∧
        ∀ f ∈ fs, isOneLine f.2.toList = true := by
  have hquote : isLineEnd '"' = false := rfl
  rw [toList_line_saying hr hfs]
  simp only [telling, isOneLine_append, isOneLine_cons, hquote, Bool.not_false, Bool.true_and, Bool.and_eq_true,
    isOneLine_fieldsChars hfs]

/-! Records that share a line. -/

/-- Behind one opening, equal lines tell the same. -/
theorem line_eq_iff (hr : r.IsOpen) (hfs : IsFields isName fs) (hfs' : IsFields isName fs') (now : Time)
    (current : Option String) :
    (r.saying m' fs').line now current = (r.saying m fs).line now current ↔ telling m' fs' = telling m fs := by
  rw [← String.toList_inj, toList_line_saying hr hfs, toList_line_saying hr hfs', List.append_cancel_left_eq]

/-- A message in which a quotation mark may be taken for the one that ends the message: what comes behind it, up to the
fields, reads as more fields. -/
def ReadsOn (isName : String → Prop) (message : List Char) (fs : List (String × String)) : Prop :=
  ∃ before after gs, message = before ++ '"' :: after ∧ after ++ ['"'] = fieldsChars gs ∧
    IsFields isName (gs ++ fs)

/-- A message without quotation marks is not misread. -/
theorem not_readsOn_of_not_mem {message : List Char} (h : '"' ∉ message) (fs : List (String × String)) :
    ¬ReadsOn isName message fs := by
  rintro ⟨before, after, gs, rfl, -⟩
  exact h (by simp)

/-- With bare values a line has no other reading than one that ends the message earlier. -/
theorem reading_eq_of_isBare (hfs : IsFields isName fs) (hfs' : IsFields isName fs')
    (hbare : ∀ f ∈ fs, IsBare f.2.toList) (hread : ¬ReadsOn isName m.toList fs)
    (h : telling m' fs' = telling m fs) : m' = m ∧ fs' = fs := by
  have hsame (hm : m'.toList = m.toList) : m' = m ∧ fs' = fs := by
    rw [telling, telling, hm, List.append_cancel_left_eq, List.cons.injEq] at h
    obtain ⟨gs, hgs, hfields⟩ := fields_behind hfs.names hbare hfs'.names (p := []) h.2
    rw [fieldsChars_eq_nil.1 hgs.symm, List.nil_append] at hfields
    exact ⟨String.toList_inj.1 hm, hfields⟩
  rcases List.append_eq_append_iff.1 h with ⟨after, hm, hrest⟩ | ⟨after, hm, hrest⟩
  -- the other message ends within this one
  · cases after with
    | nil => exact hsame (by rw [hm, List.append_nil])
    | cons c after =>
      rw [List.cons_append, List.cons.injEq, List.append_cons] at hrest
      obtain ⟨rfl, hfields⟩ := hrest
      obtain ⟨gs, hgs, rfl⟩ := fields_behind hfs.names hbare hfs'.names hfields
      exact absurd ⟨_, after, gs, hm, hgs, hfs'⟩ hread
  -- the other message goes on in the fields of this one
  · cases after with
    | nil => exact hsame (by rw [hm, List.append_nil])
    | cons c after =>
      obtain ⟨rfl, hfields⟩ := List.cons.inj hrest
      exact absurd hfields ((noneCloses_fieldsChars hfs.names hbare).not_followed fs')

/-- A value that is not bare can be read as the end of a message, with all that comes before it. -/
theorem exists_reading_of_not_isBare (hfs : IsFields isName fs) {f : String × String} (hf : f ∈ fs)
    (hbare : ¬IsBare f.2.toList) (m : String) :
    ∃ m' fs', IsFields isName fs' ∧ fs' ≠ fs ∧ telling m' fs' = telling m fs := by
  obtain ⟨fs₁, fs₂, rfl⟩ := List.append_of_mem hf
  obtain ⟨w, hw⟩ := marked_of_not_isBare hbare
  refine ⟨.ofList (m.toList ++ '"' :: fieldsChars fs₁ ++ ' ' :: (f.1.toList ++ '=' :: w)), fs₂,
    hfs.sublist ((List.sublist_cons_self f fs₂).trans (List.sublist_append_right fs₁ _)), fun he => ?_, ?_⟩
  · have hlength := congrArg List.length he
    rw [List.length_append, List.length_cons] at hlength
    omega
  · simp [telling, fieldChars, hw]

/-- Where a message reads on, it can be read as a shorter one with more fields. -/
theorem ReadsOn.exists_reading (h : ReadsOn isName m.toList fs) :
    ∃ m' fs', IsFields isName fs' ∧ fs' ≠ fs ∧ telling m' fs' = telling m fs := by
  obtain ⟨before, after, gs, hm, hgs, hfields⟩ := h
  refine ⟨.ofList before, gs ++ fs, hfields, fun he => ?_, ?_⟩
  · rw [List.append_left_eq_self.1 he] at hgs
    exact List.append_ne_nil_of_right_ne_nil after (List.cons_ne_nil _ _) hgs
  · rw [telling, telling, hm, String.toList_ofList, fieldsChars_append, ← hgs]
    simp

/-- A record shares its line with no other one exactly if all its values are bare and its message does not read on. -/
theorem reading_unique_iff (hfs : IsFields isName fs) :
    (∀ m' fs', IsFields isName fs' → telling m' fs' = telling m fs → m' = m ∧ fs' = fs) ↔
      (∀ f ∈ fs, IsBare f.2.toList) ∧ ¬ReadsOn isName m.toList fs := by
  constructor
  · intro h
    refine ⟨fun f hf => ?_, fun hread => ?_⟩
    · by_contra hbare
      obtain ⟨m', fs', hfs', hne, heq⟩ := exists_reading_of_not_isBare hfs hf hbare m
      exact hne (h m' fs' hfs' heq).2
    · obtain ⟨m', fs', hfs', hne, heq⟩ := hread.exists_reading
      exact hne (h m' fs' hfs' heq).2
  · rintro ⟨hbare, hread⟩ m' fs' hfs' heq
    exact reading_eq_of_isBare hfs hfs' hbare hread heq

/-- Values without quotation marks are told apart from what follows them. -/
theorem marked_append_inj {v w : List Char} (hv : '"' ∉ v) (hw : '"' ∉ w)
    (h : marked v ++ fieldsChars fs = marked w ++ fieldsChars fs') : v = w ∧ fieldsChars fs = fieldsChars fs' := by
  have hbegin {v w s t : List Char} (hw : '"' ∉ w) (hne : ¬(w = [] ∨ ' ' ∈ w)) : '"' :: v ++ s ≠ w ++ t := by
    obtain ⟨c, w, rfl⟩ := List.exists_cons_of_ne_nil (not_or.1 hne).1
    intro he
    exact hw ((List.cons.inj he).1 ▸ List.mem_cons_self)
  rw [marked, marked] at h
  split at h
  next hm =>
    split at h
    · simp only [List.cons_append, List.append_assoc, List.cons.injEq, true_and] at h
      exact append_cons_inj hv hw h
    next hm' => exact absurd h (hbegin hw hm')
  next hm =>
    split at h
    · exact absurd h.symm (hbegin hv hm)
    next hm' => exact append_fields_inj (not_or.1 hm).2 (not_or.1 hm').2 h

/-- Fields without quotation marks in their values are told apart. -/
theorem fieldsChars_inj (hfs : ∀ f ∈ fs, IsFieldName f.1) (hfs' : ∀ f ∈ fs', IsFieldName f.1)
    (hq : ∀ f ∈ fs, '"' ∉ f.2.toList) (hq' : ∀ f ∈ fs', '"' ∉ f.2.toList)
    (h : fieldsChars fs = fieldsChars fs') : fs = fs' := by
  induction fs generalizing fs' with
  | nil => exact (fieldsChars_eq_nil.1 h.symm).symm
  | cons f fs ih =>
    cases fs' with
    | nil => exact fieldsChars_eq_nil.1 h
    | cons g gs =>
      rw [List.forall_mem_cons] at hfs hfs' hq hq'
      obtain ⟨hname, hvalue⟩ := field_name_inj hfs.1 hfs'.1 h
      obtain ⟨hv, hrest⟩ := marked_append_inj hq.1 hq'.1 hvalue
      rw [Prod.ext hname (String.toList_inj.1 hv), ih hfs.2 hfs'.2 hq.2 hq'.2 hrest]

end

end

/-- Which records can be taken for others. The line of a record is a single one exactly if all that it tells is without
line ends. It is the line of no other record, whatever message and fields that has, exactly if its values are bare and
its message does not read on. Two records without quotation marks never share a line. -/
theorem line_tells_record_iff {isName : String → Prop} {r : Record} (hr : r.IsOpen) (now : Time)
    (current : Option String) {m : String} {fs : List (String × String)} (hfs : IsFields isName fs) :
    (isOneLine ((r.saying m fs).line now current).toList = true ↔
      (isOneLine r.level.toList && isOneLine (traceText current r).toList && isOneLine (lastPart r.source).toList &&
        isOneLine (operationText r).toList) = true ∧
      isOneLine m.toList = true ∧ ∀ f ∈ fs, isOneLine f.2.toList = true) ∧
    ((∀ m' fs', IsFields isName fs' → (r.saying m' fs').line now current = (r.saying m fs).line now current →
        m' = m ∧ fs' = fs) ↔
      (∀ f ∈ fs, IsBare f.2.toList) ∧ ¬ReadsOn isName m.toList fs) ∧
    ∀ m' fs', IsFields isName fs' → (r.saying m' fs').line now current = (r.saying m fs).line now current →
      '"' ∉ m.toList → '"' ∉ m'.toList →
        (∀ f ∈ fs, '"' ∉ f.2.toList) → (∀ f ∈ fs', '"' ∉ f.2.toList) → m' = m ∧ fs' = fs := by
  refine ⟨?_, ?_, ?_⟩
  · rw [isOneLine_line_iff hr hfs, isOneLine_opening]
  · rw [← reading_unique_iff hfs]
    exact forall₃_congr fun m' fs' hfs' => by rw [line_eq_iff hr hfs hfs']
  · intro m' fs' hfs' heq hm hm' hq hq'
    rw [line_eq_iff hr hfs hfs'] at heq
    obtain ⟨hmessage, hfields⟩ := append_cons_inj hm' hm heq
    exact ⟨String.toList_inj.1 hmessage, fieldsChars_inj hfs'.names hfs.names hq' hq hfields⟩

def requestFailed : Record := ⟨"ERROR", "vulnkb.rag.embedding", some "embed", "", [], none⟩

theorem isOpen_requestFailed : requestFailed.IsOpen := ⟨fun _ ha => absurd ha List.not_mem_nil, rfl⟩

def IsWord (k : String) : Prop := k.toList.all Char.isAlpha = true

instance : DecidablePred IsWord := fun _ => inferInstanceAs (Decidable (_ = _))

/-- A plain report of a refused request stands on one line, which no other message with fields gives. -/
theorem line_tells_record_iff_status :
    requestFailed.IsOpen ∧ IsFields IsWord [("status", "500")] ∧
      isOneLine ((requestFailed.saying "Embedding request failed" [("status", "500")]).line
        ⟨2024, 1, 1, 0, 0, 0, 0, some 0⟩ none).toList = true ∧
      ∀ m fs, IsFields IsWord fs →
        (requestFailed.saying m fs).line ⟨2024, 1, 1, 0, 0, 0, 0, some 0⟩ none =
          (requestFailed.saying "Embedding request failed" [("status", "500")]).line
            ⟨2024, 1, 1, 0, 0, 0, 0, some 0⟩ none →
        m = "Embedding request failed" ∧ fs = [("status", "500")] := by
  have hfields : IsFields IsWord [("status", "500")] := by decide
  obtain ⟨hline, hunique, -⟩ := line_tells_record_iff isOpen_requestFailed ⟨2024, 1, 1, 0, 0, 0, 0, some 0⟩ none
    (m := "Embedding request failed") hfields
  exact ⟨isOpen_requestFailed, hfields, hline.2 (by decide),
    hunique.2 ⟨by decide, not_readsOn_of_not_mem (by decide) _⟩⟩

/-- An answer that is passed on in a field can break the line, and can pass for further fields. -/
theorem error_body_breaks_the_line_or_passes_for_a_field :
    IsFields IsWord [("error", "no answer"), ("reason", "bad gateway")] ∧
      isOneLine ((requestFailed.saying "Embedding request failed" [("error", "a\nb")]).line
        ⟨2024, 1, 1, 0, 0, 0, 0, some 0⟩ none).toList = false ∧
      (requestFailed.saying "Embedding request failed" [("error", "no answer\" reason=\"bad gateway")]).line
          ⟨2024, 1, 1, 0, 0, 0, 0, some 0⟩ none =
        (requestFailed.saying "Embedding request failed" [("error", "no answer"), ("reason", "bad gateway")]).line
          ⟨2024, 1, 1, 0, 0, 0, 0, some 0⟩ none := by
  have hone (error : String) : IsFields IsWord [("error", error)] :=
    ⟨by simp; decide, by simp; decide, by simp⟩
  have htwo : IsFields IsWord [("error", "no answer"), ("reason", "bad gateway")] := by decide
  refine ⟨htwo, ?_, ?_⟩
  · rw [← Bool.not_eq_true, isOneLine_line_iff isOpen_requestFailed (hone _)]
    decide
  · rw [line_eq_iff isOpen_requestFailed htwo (hone _)]
    decide

end Compendium.Record
