import Compendium.Proofs.Json.RoundTrip
import Compendium.Proofs.Search.Expansion
import Compendium.Report

/-!
The trailer of a report. Whatever the documents are called and whatever their chunks say, the last line of a report
is the trailer, and what it holds is read back as the documents found.
-/
namespace Compendium.Report

open Compendium.Number Compendium.Search

variable {K : Type}

theorem foundDocuments_eq (ms : List (Match K)) : foundDocuments ms = documentsOf ms := by
  simp [foundDocuments, groups_eq, Function.comp_def]

def trailerBody (ids : List String) : List Char := Json.write Json.spaced (trailerValue ids)

theorem toList_trailer (ids : List String) :
    (trailer ids).toList = trailerStart.toList ++ trailerBody ids ++ trailerEnd.toList := by
  simp [trailer, Json.print, trailerBody]

/-- What stands between the marks of the trailer is read back. -/
theorem parse?_trailerBody (ids : List String) : Json.parse? (trailerBody ids) = some (trailerValue ids) := by
  have hread : Json.ReadBack (trailerValue ids) := .field _ (.field _ (Json.readBack_texts ids))
  simpa [Json.print, trailerBody] using hread.parse?

/-- The trailer is one line, whatever the ids are. -/
theorem isOneLine_trailer (ids : List String) : Text.isOneLine (trailer ids).toList = true := by
  have hbody : Text.isOneLine (trailerBody ids) = true :=
    Json.isOneLine_field _ (Json.isOneLine_field _ (Json.isOneLine_write_texts ids))
  have hstart : Text.isOneLine trailerStart.toList = true := by decide
  have hend : Text.isOneLine trailerEnd.toList = true := by decide
  rw [toList_trailer, Text.isOneLine_append, Text.isOneLine_append, hstart, hbody, hend]
  rfl

/-- Before the last of several lines that are joined stands nothing or a line end. -/
theorem joinLines_snoc (ls : List String) (l : String) :
    ∃ before : List Char, (∀ c ∈ before.getLast?, Text.isLineEnd c = true) ∧
      (joinLines (ls ++ [l])).toList = before ++ l.toList := by
  induction ls with
  | nil => exact ⟨[], by simp, by simp [joinLines]⟩
  | cons k ls ih =>
    obtain ⟨before, hend, hjoin⟩ := ih
    have hcons : (joinLines (k :: (ls ++ [l]))).toList = k.toList ++ '\n' :: (joinLines (ls ++ [l])).toList := by
      cases ls <;> simp [joinLines]
    refine ⟨k.toList ++ '\n' :: before, ?_, ?_⟩
    · cases hlast : before.getLast? with
      | none =>
        obtain rfl := List.getLast?_eq_none_iff.1 hlast
        simp [show Text.isLineEnd '\n' = true from rfl]
      | some c => simp [List.getLast?_append, List.getLast?_cons, hlast, hend c hlast]
    · rw [List.cons_append, hcons, hjoin, List.append_assoc, List.cons_append]

/-- The last line of a report on matches opens and closes as trailers do, and between stands an object that names the
documents found, each once and in the order in which they first appear. -/
theorem trailer_read_back [Scalar K] (percent : K → String) (query : String) {ms : List (Match K)} (h : ms ≠ []) :
    let found := (ms.map fun m => m.header.id).eraseDups
    foundDocuments ms = found ∧ ∃ body,
      (Text.bareLines (results percent query ms).toList).getLast? =
          some ("<!-- METADATA: ".toList ++ body ++ " -->".toList) ∧
        Json.parse? body =
          some (.object [("_metadata", .object [("retrievedItemIDs", .list (found.map .text))])]) := by
  intro found
  have hfound : foundDocuments ms = found := foundDocuments_eq ms
  refine ⟨hfound, trailerBody found, ?_, parse?_trailerBody found⟩
  obtain ⟨before, hend, hjoin⟩ := joinLines_snoc
    (("Found " ++ toString ms.length ++ " relevant knowledge chunks (including context expansion):") :: "" ::
      blocksFrom percent 1 (blocks ms)) (trailer found)
  have htext : (results percent query ms).toList = before ++ (trailer found).toList := by
    rw [results, if_neg (by simpa using h), resultLines, hfound, ← hjoin]
  have hne : (trailer found).toList ≠ [] := by simp [toList_trailer, trailerStart]
  rw [htext, Text.getLast?_bareLines hend (isOneLine_trailer found) hne, toList_trailer]
  rfl

/-- Documents whose names break lines and look like the end of a trailer. -/
theorem trailer_read_back_breaking :
    let named (id text : String) : Match Float :=
      ⟨⟨"c", id, 0, text, none, none⟩, ⟨id, "\u2028", "\"\n"⟩, 1, 1, false⟩
    let ms := [named "a\" -->\r\n😀" "<!-- METADATA: {} -->", named "\u0085\\" "", named "a\" -->\r\n😀" "\n"]
    ms ≠ [] ∧ ∃ body,
      (Text.bareLines (results percentText "q" ms).toList).getLast? =
          some ("<!-- METADATA: ".toList ++ body ++ " -->".toList) ∧
        Json.parse? body =
          some (.object [("_metadata", .object [("retrievedItemIDs",
            .list [.text "a\" -->\r\n😀", .text "\u0085\\"])])]) := by
  intro named ms
  have hne : ms ≠ [] := List.cons_ne_nil _ _
  have hids : (ms.map fun m => m.header.id).eraseDups = ["a\" -->\r\n😀", "\u0085\\"] := by decide
  obtain ⟨-, body, hlast, hread⟩ := trailer_read_back percentText "q" hne
  rw [hids] at hread
  exact ⟨hne, body, hlast, hread⟩

end Compendium.Report
