import Compendium.Proofs.Segment.Sections

/-!
Headings and fenced code. A fence is opened by backquotes or by tildes and should be closed by the same mark only; the
cut into sections lets either mark close it. Where no mark crosses a fence of the other kind the two readings agree.
-/
namespace Compendium.Segment

open Compendium.Text

/-! Places in a text. -/

/-- The places at which pieces begin, of which the first stands behind `passed` characters. -/
def placesFrom (passed : Nat) : List (List Char) → List Nat
  | [] => []
  | p :: ps => passed :: placesFrom (passed + p.length) ps

def sectionPlaces (text : List Char) : List Nat := (placesFrom 0 (cutAtHeadings false (lines text))).tail

def between (text : List Char) (start : Nat) : List Nat → List (List Char)
  | [] => [text.drop start]
  | n :: ns => (text.drop start).take (n - start) :: between text n ns

/-- Pieces in a row are what lies between the places at which they begin. -/
theorem between_placesFrom {before : List Char} {p : List Char} {ps : List (List Char)} :
    between (before ++ (p :: ps).flatten) before.length (placesFrom before.length (p :: ps)).tail = p :: ps := by
  induction ps generalizing before p with
  | nil => simp [placesFrom, between]
  | cons q ps ih =>
    have hrest := @ih (before ++ p) q
    rw [List.length_append, List.append_assoc, ← List.flatten_cons, placesFrom, List.tail_cons] at hrest
    rw [placesFrom, List.tail_cons, placesFrom, between, hrest, List.drop_left, Nat.add_sub_cancel_left,
      List.flatten_cons, List.take_left]

/-- The sections of a text are what lies between those places. -/
theorem sections_eq_between (text : List Char) :
    sections text = if sectionPlaces text = [] then [trim text] else trims (between text 0 (sectionPlaces text)) := by
  have hcut := (cutAtHeadings_flatten false (lines text)).trans (lines_flatten text)
  obtain ⟨p, ps, hps⟩ := List.exists_cons_of_ne_nil (cutAtHeadings_ne_nil false (lines text))
  have hbetween : between text 0 (sectionPlaces text) = p :: ps := by
    have hall := @between_placesFrom [] p ps
    rw [List.nil_append, List.length_nil, ← hps, hcut] at hall
    rw [← hps, ← hall, sectionPlaces]
  rw [hbetween, sectionPlaces, sections, hps, placesFrom, List.tail_cons]
  cases ps with
  | nil => rfl
  | cons q ps => rfl

/-- Some line begins at a place, of which something holds with regard to the lines before it. -/
def LineAt (ls : List (List Char)) (n : Nat) (P : List (List Char) → List Char → Prop) : Prop :=
  ∃ before l after, ls = before ++ l :: after ∧ before.flatten.length = n ∧ P before l

theorem lineAt_nil {n : Nat} {P : List (List Char) → List Char → Prop} : ¬LineAt [] n P := by
  rintro ⟨before, l, after, hls, -⟩
  cases before <;> cases hls

theorem lineAt_cons {l : List Char} {ls : List (List Char)} {n : Nat} {P : List (List Char) → List Char → Prop} :
    LineAt (l :: ls) n P ↔ n = 0 ∧ P [] l ∨ ∃ m, n = l.length + m ∧
      LineAt ls m fun before => P (l :: before) := by
  constructor
  · rintro ⟨before, l', after, hls, rfl, hP⟩
    cases before with
    | nil =>
      obtain ⟨rfl, -⟩ := List.cons.inj hls
      exact .inl ⟨rfl, hP⟩
    | cons k before =>
      obtain ⟨rfl, hrest⟩ := List.cons.inj hls
      exact .inr ⟨before.flatten.length, by simp, before, l', after, hrest, rfl, hP⟩
  · rintro (⟨rfl, hP⟩ | ⟨m, rfl, before, l', after, rfl, rfl, hP⟩)
    · exact ⟨[], l, ls, rfl, rfl, hP⟩
    · exact ⟨l :: before, l', after, rfl, by simp, hP⟩

/-- No two lines begin at one place. -/
theorem LineAt.and {ls : List (List Char)} (hls : [] ∉ ls) {n : Nat} {P Q : List (List Char) → List Char → Prop}
    (hP : LineAt ls n P) (hQ : LineAt ls n Q) : LineAt ls n fun before l => P before l ∧ Q before l := by
  induction ls generalizing n P Q with
  | nil => exact absurd hP lineAt_nil
  | cons l ls ih =>
    have hl : 0 < l.length := List.length_pos_iff.2 fun he => hls (he ▸ List.mem_cons_self)
    rcases lineAt_cons.1 hP with ⟨rfl, hP'⟩ | ⟨m, rfl, hP'⟩ <;>
      rcases lineAt_cons.1 hQ with ⟨hn, hQ'⟩ | ⟨m', hm, hQ'⟩
    · exact lineAt_cons.2 (.inl ⟨rfl, hP', hQ'⟩)
    · omega
    · omega
    · obtain rfl : m = m' := by omega
      exact lineAt_cons.2 (.inr ⟨m, rfl, ih (fun h => hls (List.mem_cons_of_mem l h)) hP' hQ'⟩)

theorem lineAt_iff {ls : List (List Char)} (hls : [] ∉ ls) {before after : List (List Char)} {l : List Char}
    (h : ls = before ++ l :: after) {P : List (List Char) → List Char → Prop} :
    LineAt ls before.flatten.length P ↔ P before l := by
  refine ⟨fun hP => ?_, fun hP => ⟨before, l, after, h, rfl, hP⟩⟩
  have hthis : LineAt ls before.flatten.length fun b k => b = before ∧ k = l :=
    ⟨before, l, after, h, rfl, rfl, rfl⟩
  obtain ⟨_, _, _, -, -, hl, rfl, rfl⟩ := hP.and hls hthis
  exact hl

theorem lineAt_congr {ls : List (List Char)} {n : Nat} {P Q : List (List Char) → List Char → Prop}
    (h : ∀ before l after, ls = before ++ l :: after → (P before l ↔ Q before l)) :
    LineAt ls n P ↔ LineAt ls n Q := by
  constructor
  · rintro ⟨before, l, after, hls, hn, hP⟩
    exact ⟨before, l, after, hls, hn, (h before l after hls).1 hP⟩
  · rintro ⟨before, l, after, hls, hn, hQ⟩
    exact ⟨before, l, after, hls, hn, (h before l after hls).2 hQ⟩

/-! Where sections begin. -/

theorem placesFrom_eq_cons (n : Nat) {ps : List (List Char)} (h : ps ≠ []) :
    placesFrom n ps = n :: (placesFrom n ps).tail := by
  obtain ⟨p, ps, rfl⟩ := List.exists_cons_of_ne_nil h
  rfl

theorem tail_placesFrom_pushLine (n : Nat) (l : List Char) {ps : List (List Char)} (h : ps ≠ []) :
    (placesFrom n (pushLine l ps)).tail = (placesFrom (n + l.length) ps).tail := by
  obtain ⟨p, ps, rfl⟩ := List.exists_cons_of_ne_nil h
  simp [pushLine, placesFrom, Nat.add_assoc]

/-- Behind a first line, sections begin at it if it is a heading outside fences, and where they begin behind it. -/
theorem tail_placesFrom_cutAtHeadings (fenced : Bool) (l : List Char) (ls : List (List Char)) (n : Nat) :
    (placesFrom n (cutAtHeadings fenced (l :: ls))).tail =
      (if fenced = false ∧ isHeading l = true then [n] else []) ++
        (placesFrom (n + l.length) (cutAtHeadings (fenced ^^ isFence l) ls)).tail := by
  have hrest := tail_placesFrom_pushLine n l (cutAtHeadings_ne_nil (fenced ^^ isFence l) ls)
  rw [cutAtHeadings_cons]
  split
  · rw [List.singleton_append, placesFrom, List.tail_cons, List.length_nil, Nat.add_zero,
      placesFrom_eq_cons n (pushLine_ne_nil l _), hrest]
    rfl
  · exact hrest

/-- Sections begin at the headings that an even number of fences stands before. -/
theorem mem_placesFrom_cutAtHeadings {fenced : Bool} {ls : List (List Char)} {n m : Nat} :
    m ∈ (placesFrom n (cutAtHeadings fenced ls)).tail ↔
      ∃ k, m = n + k ∧
        LineAt ls k fun before l => isHeading l = true ∧ Even (before.countP isFence + fenced.toNat) := by
  induction ls generalizing fenced n with
  | nil => simp [cutAtHeadings, placesFrom, lineAt_nil]
  | cons l ls ih =>
    have hfirst : (m ∈ if fenced = false ∧ isHeading l = true then [n] else []) ↔
        m = n ∧ isHeading l = true ∧ Even (([] : List (List Char)).countP isFence + fenced.toNat) := by
      cases fenced <;> by_cases hl : isHeading l = true <;> simp [hl]
    rw [tail_placesFrom_cutAtHeadings, List.mem_append, hfirst, ih]
    simp only [lineAt_cons, even_countP_cons]
    constructor
    · rintro (⟨rfl, hl⟩ | ⟨k, rfl, hk⟩)
      · exact ⟨0, rfl, .inl ⟨rfl, hl⟩⟩
      · exact ⟨l.length + k, Nat.add_assoc n _ _, .inr ⟨k, rfl, hk⟩⟩
    · rintro ⟨_, rfl, ⟨rfl, hl⟩ | ⟨k, rfl, hk⟩⟩
      · exact .inl ⟨rfl, hl⟩
      · exact .inr ⟨k, (Nat.add_assoc n _ _).symm, hk⟩

/-- A section begins at a heading with an even number of fence lines before it. -/
theorem mem_sectionPlaces {text : List Char} {n : Nat} :
    n ∈ sectionPlaces text ↔
      LineAt (lines text) n fun before l => isHeading l = true ∧ Even (before.countP isFence) := by
  rw [sectionPlaces, mem_placesFrom_cutAtHeadings]
  simp

theorem sectionPlaces_pairwise (text : List Char) : (sectionPlaces text).Pairwise (· < ·) := by
  have hall (fenced : Bool) (ls : List (List Char)) (n : Nat) :
      (placesFrom n (cutAtHeadings fenced ls)).tail.Pairwise (· < ·) := by
    induction ls generalizing fenced n with
    | nil => exact .nil
    | cons l ls ih =>
      rw [tail_placesFrom_cutAtHeadings]
      split
      next h =>
        refine List.pairwise_cons.2 ⟨fun m hm => ?_, ih _ _⟩
        obtain ⟨k, rfl, -⟩ := mem_placesFrom_cutAtHeadings.1 hm
        have hl : l ≠ [] := by
          rintro rfl
          exact absurd h.2 (by decide)
        have hpos := List.length_pos_iff.2 hl
        omega
      next h => exact ih _ _
  exact hall false (lines text) 0

/-! Fences of two kinds. -/

inductive Mark
  | backquotes
  | tildes
  deriving DecidableEq

def markOf? (line : List Char) : Option Mark :=
  let s := trimStart line
  if ['\x60', '\x60', '\x60'].isPrefixOf s then some .backquotes
  else if ['~', '~', '~'].isPrefixOf s then some .tildes
  else none

/-- The fence that is open behind a line: any mark opens one, only its own mark closes it. -/
def openBehind (opened : Option Mark) (line : List Char) : Option Mark :=
  match opened with
  | none => markOf? line
  | some mark => if markOf? line = some mark then none else some mark

def openMark (ls : List (List Char)) : Option Mark := ls.foldl openBehind none

/-- A line with a mark in a fence of the other mark. -/
def crosses (opened : Option Mark) (line : List Char) : Bool :=
  opened.any fun mark => (markOf? line).any (· ≠ mark)

def crossings : (opened : Option Mark) → List (List Char) → Nat
  | _, [] => 0
  | opened, l :: ls => crossings (openBehind opened l) ls + (crosses opened l).toNat

/-- A fence line is a line that begins with a mark. -/
theorem isFence_eq (l : List Char) : isFence l = (markOf? l).isSome := by
  simp only [isFence, markOf?]
  cases ['\x60', '\x60', '\x60'].isPrefixOf (trimStart l) <;> cases ['~', '~', '~'].isPrefixOf (trimStart l) <;> rfl

/-- A fence line opens or closes a fence unless it stands in one of the other mark. -/
theorem isSome_openBehind (opened : Option Mark) (l : List Char) :
    (openBehind opened l).isSome = (opened.isSome ^^ isFence l ^^ crosses opened l) := by
  rw [isFence_eq]
  cases opened with
  | none => simp [openBehind, crosses]
  | some mark =>
    cases hl : markOf? l with
    | none => simp [openBehind, crosses, hl]
    | some other => by_cases h : other = mark <;> simp [openBehind, crosses, hl, h]

/-- Telling fences by their marks comes out as letting every fence line open or close, up to the crossings. -/
theorem even_countP_isFence (opened : Option Mark) (ls : List (List Char)) :
    Even (ls.countP isFence + opened.isSome.toNat) ↔
      (Even (crossings opened ls) ↔ ls.foldl openBehind opened = none) := by
  induction ls generalizing opened with
  | nil => cases opened <;> simp [crossings]
  | cons l ls ih =>
    have hstep := ih (openBehind opened l)
    rw [isSome_openBehind] at hstep
    rw [List.foldl_cons, crossings, List.countP_cons]
    generalize opened.isSome = o, isFence l = f, crosses opened l = x at hstep ⊢
    cases o <;> cases f <;> cases x <;>
      simp only [Nat.even_add_one, Bool.true_xor, Bool.false_xor, Bool.not_true, Bool.not_false, Bool.toNat_true,
        Bool.toNat_false, Bool.false_eq_true, reduceIte, Nat.add_zero] at hstep ⊢ <;> tauto

/-- Sections begin at the headings outside fences, and no fence is cut in two. -/
structure KeepsFences (text : List Char) : Prop where
  starts : ∀ n, n ∈ sectionPlaces text ↔ LineAt (lines text) n fun before l => isHeading l = true ∧
    openMark before = none
  whole : ∀ n ∈ sectionPlaces text, LineAt (lines text) n fun before _ => openMark before = none

/-- Sections are cut at the headings that an even number of fence lines stands before. These are the headings outside
fences as long as before each heading an even number of them crosses a fence of the other mark, and only then. -/
theorem keepsFences_iff (text : List Char) :
    (sections text = if sectionPlaces text = [] then [trim text] else trims (between text 0 (sectionPlaces text))) ∧
      (sectionPlaces text).Pairwise (· < ·) ∧
      (∀ n, n ∈ sectionPlaces text ↔
        LineAt (lines text) n fun before l => isHeading l = true ∧ Even (before.countP isFence)) ∧
      (KeepsFences text ↔
        ∀ before l after, lines text = before ++ l :: after → isHeading l = true →
          Even (crossings none before)) := by
  refine ⟨sections_eq_between text, sectionPlaces_pairwise text, fun n => mem_sectionPlaces,
    fun hkeeps before l after hls hl => ?_, fun heven => ?_⟩
  -- At the place of one heading both readings are a matter of that line only.
  · have hhere := hkeeps.starts before.flatten.length
    rw [mem_sectionPlaces, lineAt_iff (nil_not_mem_lines text) hls, lineAt_iff (nil_not_mem_lines text) hls] at hhere
    have hparity := even_countP_isFence none before
    simp only [Option.isSome_none, Bool.toNat_false, Nat.add_zero] at hparity
    simp only [hl, true_and, hparity, openMark] at hhere
    tauto
  · have hstarts (n : Nat) : n ∈ sectionPlaces text ↔
        LineAt (lines text) n fun before l => isHeading l = true ∧ openMark before = none := by
      rw [mem_sectionPlaces]
      refine lineAt_congr fun before l after hls => and_congr_right fun hl => ?_
      have hparity := even_countP_isFence none before
      rw [iff_true_left (heven before l after hls hl)] at hparity
      exact hparity
    exact ⟨hstarts, fun n hn =>
      let ⟨before, l, after, hls, hplace, _, hopen⟩ := (hstarts n).1 hn
      ⟨before, l, after, hls, hplace, hopen⟩⟩

/-- Tildes inside a fence of backquotes are taken for its end, so the heading behind them is cut off. -/
theorem tildes_close_backquotes : ¬KeepsFences "\x60\x60\x60md\n~~~\n# a\n~~~\n\x60\x60\x60\n".toList := by
  intro h
  have hlines : lines "\x60\x60\x60md\n~~~\n# a\n~~~\n\x60\x60\x60\n".toList =
      ["\x60\x60\x60md\n".toList, "~~~\n".toList] ++ "# a\n".toList :: ["~~~\n".toList, "\x60\x60\x60\n".toList] := by
    decide +kernel
  have hopen := h.whole 10 (by decide +kernel)
  have hplace : 10 = ["\x60\x60\x60md\n".toList, "~~~\n".toList].flatten.length := by decide +kernel
  rw [hplace, lineAt_iff (nil_not_mem_lines _) hlines] at hopen
  exact absurd hopen (by decide +kernel)

end Compendium.Segment
