import DesktopSearch.Text.Blank

/-!
# Squeezing blanks

`squeeze` writes every run of blanks of a query as one and drops those at both ends, but copies what
stands between double quotes as it is.
-/

namespace DesktopSearch.Sparql

/-- Where a scan of a query stands. -/
structure Scan where
  /-- Between double quotes. -/
  quoted : Bool := false
  /-- After a backslash between double quotes. -/
  escaped : Bool := false
  /-- After a blank that is still to be written. -/
  pending : Bool := false
  /-- Something has been written. -/
  started : Bool := false

/-- The scan after a character between double quotes. -/
def Scan.inside (s : Scan) (c : Char) : Scan :=
  if s.escaped then { s with escaped := false }
  else if c = '\\' then { s with escaped := true }
  else if c = '"' then { s with quoted := false }
  else s

/-- What is written for the rest of a query. -/
def squeezeFrom (s : Scan) : List Char → List Char
  | [] => []
  | c :: cs =>
    if s.quoted then c :: squeezeFrom (s.inside c) cs
    else if Text.isBlank c then squeezeFrom { s with pending := s.started } cs
    else
      (if s.pending then [' '] else []) ++
        c :: squeezeFrom { quoted := c == '"', started := true } cs

/-- A query with its blanks squeezed. -/
def squeeze (cs : List Char) : List Char := squeezeFrom {} cs

end DesktopSearch.Sparql
