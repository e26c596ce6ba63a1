import SchemaForge.Error
import SchemaForge.Json.Printer
import SchemaForge.Json.Reader
/-!
Schema documents: JSON objects that keep the order of their members.
-/
namespace SchemaForge

structure Document where
  members : Members

namespace Document

def empty : Document := ⟨[]⟩

def insert (d : Document) (key : String) (value : Json) : Document := ⟨d.members.insert key value⟩

/-- Gives a name a value if there is one. -/
def insertIf (d : Document) (key : String) (value : Option Json) : Document :=
  match value with
  | some v => d.insert key v
  | none => d

def get? (d : Document) (key : String) : Option Json := d.members.get? key

def string? (d : Document) (key : String) : Option String := (d.get? key).bind Json.string?

/-- The object that a member holds. -/
def document? (d : Document) (key : String) : Option Document :=
  match d.get? key with
  | some (.object members) => some ⟨members⟩
  | _ => none

def contains (d : Document) (key : String) : Bool := (d.get? key).isSome

def toJson (d : Document) : Json := .object d.members

def compact (d : Document) : String := d.toJson.compact

def pretty (d : Document) : String := d.toJson.pretty

/-- Equality that ignores the order of members. -/
def same (a b : Document) : Bool := a.toJson.same b.toJson

/-- Reads a document; failures name the path it came from. -/
def read (path : Path) (text : String) : Except Error Document :=
  match Json.read? text with
  | some (.object members) => .ok ⟨members⟩
  | some other => .error (.load path (.notAnObject other.kind))
  | none => .error (.load path .malformed)

end Document

end SchemaForge
