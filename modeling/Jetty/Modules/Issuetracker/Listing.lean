import Jetty.Core.Python.Integer
import Jetty.Core.Python.Segments
import Jetty.Modules.Issuetracker.Driver

/-!
# Listings of the issue tracker

What the surface makes of the parameters of a listing, and the pages that the driver cuts its rows
into.
-/

namespace Jetty.Issuetracker

open Python

/-! ### Errors of the surface -/

/-- The statuses of the emulated API that the routes raise. -/
inductive Status
  | invalidArgument
  | notFound
  | unavailable
deriving DecidableEq

/-- What a route raises. -/
inductive Raised
  /-- `TrackerApiError`. -/
  | api (status : Status) (message : Text)
  /-- Any other exception. -/
  | other
deriving DecidableEq

abbrev Outcome (α : Type) := Except Raised α

/-- A `TrackerApiError` with the status `INVALID_ARGUMENT`. -/
def invalid {α : Type} (message : Text) : Outcome α := .error (.api .invalidArgument message)

/-- `_drive`. -/
def drive {α : Type} (result : Except DriverError α) : Outcome α :=
  match result with
  | .ok a => .ok a
  | .error (.rejects message) => invalid message
  | .error .missing => .error (.api .unavailable (text "issue tracker upstream unavailable"))

/-! ### Pages -/

/-- Pagination as the emulated API sees it. -/
structure Page where
  size : ℤ := 25
  token : Text := []

section Pages

variable {α : Type} (repr : Text → Text)

/-- The offset that a token stands for. -/
def pageOffset (token : Text) : Except DriverError ℕ :=
  let invalid := DriverError.rejects (text "invalid pageToken " ++ repr token)
  if token = [] then .ok 0
  else
    match intOfText token with
    | some n => if n < 0 then .error invalid else .ok n.toNat
    | none => .error invalid

/-- `_paginate`. -/
def paginate (rows : List α) (page : Page) : Except DriverError (List α × Text) :=
  (pageOffset repr page.token).map fun offset =>
    let size := if 0 < page.size then page.size.toNat else 25
    ((rows.drop offset).take size,
      if offset + size < rows.length then numeral (offset + size) else [])

end Pages

/-- `_page`. -/
def parsePage (pageSize : Option ℤ) (pageToken : Option Text) : Outcome Page :=
  let size := pageSize.getD 25
  if size < 0 then invalid (text "pageSize must not be negative")
  else .ok ⟨if min size 500 = 0 then 25 else min size 500, pageToken.getD []⟩

end Jetty.Issuetracker
