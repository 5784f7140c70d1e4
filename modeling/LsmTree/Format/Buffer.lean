import LsmTree.Error
import LsmTree.Bytes

/-!
# Format/Buffer — writing into a buffer of limited room

A buffer takes bytes until it is full.  Writing fields one after the other stops with `writeZero` at
the first byte that finds no room; what fitted stays written.
-/

namespace LsmTree.Buffer

/-- Writes one field into a buffer that holds `written` already: the buffer afterwards, and
whether the whole field found room. -/
def put (capacity : Option Nat) (written field : Bytes) : Bytes × Except IoError Unit :=
  match capacity with
  | none => (written ++ field, .ok ())
  | some room =>
    let fitting := field.take (room - written.length)
    (written ++ fitting, if fitting.length = field.length then .ok () else .error .writeZero)

/-- Writes fields one after the other into a buffer, up to the first that finds no room. -/
def putAll (capacity : Option Nat) (written : Bytes) : List Bytes → Bytes × Except IoError Unit
  | [] => (written, .ok ())
  | field :: rest =>
    match put capacity written field with
    | (written, .ok ()) => putAll capacity written rest
    | (written, .error cause) => (written, .error cause)

/-- Fields that all found room lie one behind the other. -/
theorem eq_of_putAll_eq_ok {capacity : Option Nat} {written after : Bytes} {fields : List Bytes}
    (h : putAll capacity written fields = (after, .ok ())) : after = written ++ fields.flatten := by
  induction fields generalizing written with
  | nil => simpa [putAll, eq_comm] using h
  | cons field rest ih =>
    unfold putAll at h
    split at h
    · rename_i next hput
      obtain rfl : next = written ++ field := by
        cases capacity with
        | none => exact (Prod.mk.inj hput).1.symm
        | some room =>
          obtain ⟨hnext, hfits⟩ := Prod.mk.inj hput
          split at hfits
          · rename_i hlength
            rw [← hnext, (List.take_prefix _ field).eq_of_length hlength]
          · cases hfits
      rw [ih h, List.flatten_cons, List.append_assoc]
    · cases (Prod.mk.inj h).2

/-- Without a limit every field finds room. -/
theorem putAll_none (written : Bytes) (fields : List Bytes) :
    putAll none written fields = (written ++ fields.flatten, .ok ()) := by
  induction fields generalizing written with
  | nil => simp [putAll]
  | cons field rest ih => simp [putAll, put, ih]

end LsmTree.Buffer
