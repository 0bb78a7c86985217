import CallThunk.Ty.Basic

/-!
# Records mentioned by a type

The records a type mentions, at any depth, in the order of first mention: a function's result comes
before its parameters. Two mentions of one name count once, and the first one stands.
-/

namespace CallThunk

namespace RecordTy

/-- Adds a record unless one of its name is already there. -/
def addTo (found : List RecordTy) (record : RecordTy) : List RecordTy :=
  if found.any (·.name = record.name) then found else found ++ [record]

end RecordTy

mutual
/-- Adds the records that a type mentions to those already found. -/
def Ty.addRecords : Ty → List RecordTy → List RecordTy
  | .record r, found => r.addTo found
  | .pointer pointee, found => pointee.addRecords found
  | .function ret params _, found => Ty.addRecordsList params (ret.addRecords found)
  | .void, found | .bool, found | .int _, found | .float _, found => found
/-- Adds the records that the types of a list mention, from left to right. -/
def Ty.addRecordsList : List Ty → List RecordTy → List RecordTy
  | [], found => found
  | t :: ts, found => Ty.addRecordsList ts (t.addRecords found)
end

/-- The records that a type mentions. -/
def Ty.records (ty : Ty) : List RecordTy := ty.addRecords []

end CallThunk
