import DesktopSearch.Term.Basic
import DesktopSearch.Text.Replace

/-!
# Reading kinds and names of files

Words for kinds of resources become type restrictions, and words with a point in them are compared with
the names of files, as patterns if they have wildcards.
-/

namespace DesktopSearch.Reading

open Vocabulary

/-- The class that a word is about. -/
def kind? (word : String) : Option Uri :=
  match Text.lower word with
  | "mail" | "mails" | "email" | "emails" | "message" | "messages" => some Nmo.message
  | "file" | "files" => some Nfo.fileDataObject
  | "image" | "images" | "picture" | "pictures" | "photo" | "photos" => some Nfo.image
  | "video" | "videos" | "movie" | "movies" => some Nfo.video
  | "music" | "song" | "songs" | "audio" => some Nfo.audio
  | "document" | "documents" => some Nfo.document
  | "contact" | "contacts" | "person" | "people" => some Nco.contact
  | "event" | "events" => some Ncal.event
  | "folder" | "folders" | "directory" | "directories" => some Nfo.folder
  | _ => none

/-- Reads a word as a type restriction. -/
def readKinds : List Term → List Term
  | t :: _ =>
    match t.string?.bind kind? with
    | some u => [.types .empty [u]]
    | none => []
  | [] => []

/-- The regular expression for the names that a text with wildcards matches: the text is taken
literally, then its wildcards get their meaning back. -/
def namePattern (cs : List Char) : List Char :=
  let literal := Text.literalPattern cs
  let runs := Text.replace ['\\', '*'] ['.', '*'] literal
  '^' :: Text.replace ['\\', '?'] ['.'] runs ++ ['$']

/-- Reads a word as the name of a file, or as a pattern for it. -/
def readFileNames : List Term → List Term
  | t :: _ =>
    match t.string? with
    | some word =>
      let cs := word.toList
      let comparison :=
        if cs.contains '*' || cs.contains '?' then
          let pattern := String.ofList (namePattern cs)
          Term.compare (some Nfo.fileName) (.literal t.span (.string pattern)) .regexp
        else Term.compare (some Nfo.fileName) t .contains
      if cs.contains '.' then [comparison.withSpan t.span] else []
    | none => []
  | [] => []

end DesktopSearch.Reading
