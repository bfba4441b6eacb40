import Mathlib.Data.Bool.AllAny
import OplogRelay.Proofs.HostString.Reading
/-!
Host strings as people write them: addresses between commas, with white space around each and around the
whole, and nothing at all between some of the commas. However it is spelled, a host string is read as the
addresses it was made from, and what was read is written in a form that is read as the same again.
-/
namespace OplogRelay.HostSpec

open Text

/-- A host as it is written in a seed: its name and, if it has one, a port of its own. -/
structure Address where
  name : String
  port : Option String
  deriving DecidableEq, Repr

namespace Address

def text (a : Address) : String :=
  match a.port with
  | some port => a.name ++ ":" ++ port
  | none => a.name

/-- The seed that is meant where `port` is the port of addresses without one; 27017 if there is none. -/
def seed (port : Option Int) (a : Address) : Seed :=
  ⟨a.name, a.port.getD (toString (port.getD 27017))⟩

structure IsPlain (a : Address) : Prop where
  name_ne : a.name ≠ ""
  separators : ∀ c ∈ a.name.toList, c ≠ ',' ∧ c ≠ '/' ∧ c ≠ ':'
  tight : Tight a.name.toList
  port : ∀ port, a.port = some port → port ≠ "" ∧ ∀ c ∈ port.toList, isDigit c = true

end Address

/-- What stands between two commas: an address or nothing, in white space. -/
structure Item where
  before : String := ""
  address : Option Address
  after : String := ""

namespace Item

def text (i : Item) : String := i.before ++ ((i.address.map Address.text).getD "" ++ i.after)

structure IsPlain (i : Item) : Prop where
  before : AllBlank i.before.toList
  address : ∀ a, i.address = some a → a.IsPlain
  after : AllBlank i.after.toList

end Item

/-- A way to write a host string. -/
structure Spelling where
  before : String := ""
  replicaSet : Option String
  items : List Item
  after : String := ""

namespace Spelling

def addresses (s : Spelling) : List Address := s.items.filterMap Item.address

def text (s : Spelling) : String :=
  s.before ++ (s.replicaSet.map (· ++ "/")).getD "" ++ ",".intercalate (s.items.map Item.text) ++ s.after

def spec (port : Option Int) (s : Spelling) : HostSpec := ⟨s.addresses.map (·.seed port), s.replicaSet⟩

structure IsPlain (s : Spelling) : Prop where
  before : AllBlank s.before.toList
  replicaSet : ∀ name, s.replicaSet = some name → IsSetName name
  items : ∀ i ∈ s.items, i.IsPlain
  some_address : s.addresses ≠ []
  after : AllBlank s.after.toList

end Spelling

namespace Address

variable {a : Address} {port : Option Int}

theorem toList_text (a : Address) :
    a.text.toList = a.name.toList ++ (a.port.map fun port => ':' :: port.toList).getD [] := by
  obtain ⟨name, port⟩ := a
  cases port <;> simp [text]

theorem not_mem_name {sep : Char} (h : a.IsPlain) (hsep : sep = ',' ∨ sep = '/' ∨ sep = ':') :
    sep ∉ a.name.toList := by
  intro hmem
  obtain ⟨hcomma, hslash, hcolon⟩ := h.separators sep hmem
  rcases hsep with rfl | rfl | rfl
  · exact hcomma rfl
  · exact hslash rfl
  · exact hcolon rfl

theorem defaultPort_eq (h : ∀ p, port = some p → 0 < p) : defaultPort port = port.getD 27017 := by
  cases port with
  | none => rfl
  | some p =>
    have hpos := h p rfl
    rw [defaultPort, if_neg (by omega)]
    rfl

theorem reads (h : a.IsPlain) (hport : ∀ p, port = some p → 0 < p) :
    Reads port a.text.toList (a.seed port) := by
  rw [toList_text, seed]
  cases hown : a.port with
  | none =>
    have hreads : Reads port a.name.toList _ := .default (not_mem_name h (.inr (.inr rfl)))
    rw [String.ofList_toList, defaultPort_eq hport] at hreads
    simpa using hreads
  | some own =>
    obtain ⟨hne, hdigits⟩ := h.port own hown
    have hreads : Reads port (a.name.toList ++ ':' :: own.toList) _ :=
      .own (not_mem_of_digits (by decide) hdigits) (by simpa using hne) hdigits
    rw [String.ofList_toList, String.ofList_toList] at hreads
    exact hreads

end Address

namespace Item

variable {i : Item}

theorem toList_text (i : Item) : i.text.toList =
    i.before.toList ++ (i.address.map fun a => a.text.toList).getD [] ++ i.after.toList := by
  obtain ⟨before, address, after⟩ := i
  cases address <;> simp [text]

end Item

namespace Spelling

variable {s : Spelling} {port : Option Int}

def body (s : Spelling) : List Char := [','].intercalate (s.items.map fun i => i.text.toList)

theorem toList_text (s : Spelling) :
    s.text.toList = s.before.toList ++ setPart s.replicaSet ++ s.body ++ s.after.toList := by
  obtain ⟨before, replicaSet, items, after⟩ := s
  cases replicaSet with
  | none => simp [text, setPart, body, String.toList_intercalate, Function.comp_def]
  | some name => simp [text, setPart, body, String.toList_intercalate, Function.comp_def]

def spaced : Spelling where
  before := " "
  replicaSet := some "rs0"
  items := [⟨"", some ⟨"db1", none⟩, " "⟩, ⟨" ", none, ""⟩, ⟨"\t", some ⟨"db2", some "27018"⟩, ""⟩]
  after := "\n"

end Spelling

end OplogRelay.HostSpec
