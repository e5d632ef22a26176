import Mathlib.Data.Finset.Sort
import HeadFwd.Portal.Gate
import HeadFwd.Text.Json

/-! # The admin store and its file

An admin store is a set of names in memory and a JSON array of them on disk.
Every change is made in memory and then written out as a whole, so the file
holds what the last writer had in memory, up to the replacement of invalid
UTF-8 in the names.
-/

namespace HeadFwd.Portal

open Text Net

/-- What reading `admins.json` gives. -/
inductive FileRead where
  | notExist
  | failed
  | ok (data : Bytes)
  deriving DecidableEq, Repr

/-- What writing it does: all of the data, an error with the file untouched, or an error after a
part of the data replaced it. -/
inductive WriteResult where
  | ok
  | untouched (message : Bytes)
  | partly (message : Bytes) (written : ℕ)
  deriving DecidableEq, Repr

namespace Store

/-- Fill a fresh store from the file; `none` is an error. -/
def load : FileRead → Option Admins
  | .notExist => some ∅
  | .failed => none
  | .ok data => (Json.unmarshalStrings data).map List.toFinset

/-- The bytes `save` writes for a set of admins. -/
def contents (admins : Admins) : Bytes := Json.marshalStrings admins.sort

/-- The file after `save` and the error it returns. -/
def save (admins : Admins) (file : FileRead) : WriteResult → FileRead × Option Bytes
  | .ok => (.ok (contents admins), none)
  | .untouched message => (file, some message)
  | .partly message k => (.ok ((contents admins).take k), some message)

def hasAny (admins : Admins) : Bool := 0 < admins.card

/-- The store and the file after an operation, and the error the operation returns. -/
structure Result where
  admins : Admins
  file : FileRead
  error : Option Bytes

def add (admins : Admins) (file : FileRead) (name : Bytes) (w : WriteResult) : Result :=
  let admins := insert name admins
  let (file, error) := save admins file w
  ⟨admins, file, error⟩

def remove (admins : Admins) (file : FileRead) (name : Bytes) (w : WriteResult) : Result :=
  if admins.card ≤ 1 then ⟨admins, file, some (str "cannot remove the last admin")⟩
  else
    let admins := admins.erase name
    let (file, error) := save admins file w
    ⟨admins, file, error⟩

end Store

/-- A Headscale user, with the fields the bootstrap reads. -/
structure User where
  name : Bytes
  createdAt : Bytes
  deriving DecidableEq, Repr

namespace Store

/-- One step of the search for the oldest user outside the system account. -/
def older (oldest : Option User) (u : User) : Option User :=
  if u.name = str "headfwd-server" then oldest
  else match oldest with
    | none => some u
    | some o => if u.createdAt < o.createdAt then some u else some o

def oldestUser (users : List User) : Option User := users.foldl older none

/-- The admins in memory after the bootstrap ran undisturbed; `users` is `none` when listing
failed. -/
def bootstrap (admins : Admins) (users : Option (List User)) : Admins :=
  if hasAny admins then admins
  else match users.bind oldestUser with
    | some u => insert u.name admins
    | none => admins

/-- The set read back from a saved file. -/
theorem load_contents (admins : Admins) :
    load (.ok (contents admins)) = some (admins.image sanitize) := by
  have he : (admins.sort.map sanitize).toFinset = admins.image sanitize := by
    ext n
    simp
  simp only [load, contents, Json.unmarshalStrings_marshalStrings, Option.map_some, he]

theorem load_contents_of_valid {admins : Admins} (h : ∀ n ∈ admins, ValidUtf8 n) :
    load (.ok (contents admins)) = some admins := by
  have hi : admins.image sanitize = admins.image id := Finset.image_congr fun n hn => h n hn
  rw [load_contents, hi, Finset.image_id]

/-- No proper initial part of a saved file can be read back. -/
theorem load_take {admins : Admins} {k : ℕ} (h : k < (contents admins).length) :
    load (.ok ((contents admins).take k)) = none := by
  rw [load, contents, Json.unmarshalStrings_take h, Option.map_none]

/-- Names read from a file are valid UTF-8. -/
theorem validUtf8_of_load {file : FileRead} {admins : Admins} (h : load file = some admins) :
    ∀ n ∈ admins, ValidUtf8 n := by
  cases file with
  | notExist => cases h; simp
  | failed => cases h
  | ok data =>
    obtain ⟨l, hl, rfl⟩ := Option.map_eq_some_iff.mp h
    intro n hn
    exact Json.validUtf8_of_unmarshalStrings hl n (List.mem_toFinset.mp hn)

/-- An operation that returns no error leaves its set in the file, and one that returns an error
changes neither the set in memory nor the one on disk. -/
def Atomic (admins : Admins) (file : FileRead) (r : Result) : Prop :=
  match r.error with
  | none => load r.file = some r.admins
  | some _ => r.admins = admins ∧ load r.file = load file

/-- What makes saving `new` over `admins` atomic: names that JSON can carry; or an error while the
set stays the same, if the file was left alone or reads as it did before. -/
def Saves (admins new : Admins) (file : FileRead) : WriteResult → Prop
  | .ok => ∀ n ∈ new, ValidUtf8 n
  | .untouched _ => new = admins
  | .partly _ k => new = admins ∧
    if k < (contents new).length then load file = none else load file = some (new.image sanitize)

/-- A set of names is read back as it is exactly when all of them are valid. -/
theorem load_contents_eq_iff {admins : Admins} :
    load (.ok (contents admins)) = some admins ↔ ∀ n ∈ admins, ValidUtf8 n := by
  constructor
  · intro h
    exact validUtf8_of_load h
  · exact load_contents_of_valid

/-- What is read back after a part of the contents was written. -/
theorem load_take_contents (admins : Admins) (k : ℕ) :
    load (.ok ((contents admins).take k)) =
      if k < (contents admins).length then none else some (admins.image sanitize) := by
  split_ifs with hk
  · exact load_take hk
  · rw [List.take_of_length_le (not_lt.mp hk), load_contents]

theorem atomic_save_iff {admins new : Admins} {file : FileRead} {w : WriteResult} :
    Atomic admins file ⟨new, (save new file w).1, (save new file w).2⟩ ↔
      Saves admins new file w := by
  cases w with
  | ok => exact load_contents_eq_iff
  | untouched message => simp [Atomic, save, Saves]
  | partly message k =>
    simp only [Atomic, save, Saves, load_take_contents]
    split_ifs with hk
    · simp only [eq_comm]
    · simp only [eq_comm]

/-- Adding a name and removing one are atomic exactly when what they save is; refusing to remove the
last admin always is. -/
theorem atomic_iff (admins : Admins) (file : FileRead) (name : Bytes) (w : WriteResult) :
    (Atomic admins file (add admins file name w) ↔ Saves admins (insert name admins) file w) ∧
    (Atomic admins file (remove admins file name w) ↔
      admins.card ≤ 1 ∨ Saves admins (admins.erase name) file w) := by
  constructor
  · exact atomic_save_iff
  · unfold remove
    split_ifs with hc
    · simp [Atomic, hc]
    · rw [or_iff_right hc]
      exact atomic_save_iff

/-- A grant that fails on a full disk is in force all the same, and one for a name that is no
UTF-8 succeeds and is read back as another name. -/
theorem failed_add_admits :
    let admins : Admins := {str "alice"}
    let file := FileRead.ok (contents admins)
    let failed := add admins file (str "bob") (.untouched (str "no space left on device"))
    let invalid := add admins file [0xFF] .ok
    (failed.error = some (str "no space left on device") ∧ str "bob" ∈ failed.admins ∧
      ¬ Atomic admins file failed) ∧
    invalid.error = none ∧ [0xFF] ∈ invalid.admins ∧ ¬ Atomic admins file invalid := by
  intro admins file failed invalid
  refine ⟨⟨rfl, Finset.mem_insert_self .., ?_⟩, rfl, Finset.mem_insert_self .., ?_⟩
  · rintro ⟨hadmins, -⟩
    have hbob : str "bob" ∈ admins := hadmins ▸ Finset.mem_insert_self ..
    exact absurd (Finset.mem_singleton.mp hbob) (by decide)
  · intro h
    have hvalid := load_contents_eq_iff.mp h [0xFF] (Finset.mem_insert_self ..)
    exact absurd hvalid (by decide +kernel)

end Store

/-- The store `NewServer` hands to the gate: none without a state directory, and none when the
file cannot be loaded. -/
def serverStore (stateDir : Bytes) (file : FileRead) : Option Admins :=
  if stateDir ≠ [] then Store.load file else none

end HeadFwd.Portal
