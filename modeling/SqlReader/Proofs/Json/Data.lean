import Mathlib.Data.List.Nodup
import SqlReader.Proofs.Json.Layout

/-!
# Values and their documents

A document stands for a value if it can be printed and read and the value is taken
from it.  Texts, lists, optional values, names of cases and records of named fields
stand for what they were built from, once their parts do.
-/

namespace SqlReader.Json

variable {α β γ : Type}

/-- The document `j` can be printed and read, and `take` finds the value `a` in it. -/
structure Means (take : Json → Option α) (j : Json) (a : α) : Prop where
  sound : Sound j
  ne_null : j ≠ null
  take_eq : take j = some a

theorem mapM_map_eq_some {f : α → β} {g : β → Option γ} {k : α → γ} {as : List α}
    (h : ∀ a ∈ as, g (f a) = some (k a)) : (as.map f).mapM g = some (as.map k) := by
  induction as with
  | nil => rfl
  | cons a as ih =>
      have hrest := ih fun b hb => h b (List.mem_cons_of_mem a hb)
      simp [List.mapM_cons, h a (by simp), hrest]

/-! ## Single values -/

@[simp] theorem text?_ofText (s : String) : (ofText s).text? = some s := by
  simp [ofText, text?, decode_encode]

@[simp] theorem sound_ofText (s : String) : Sound (ofText s) := .string s.toList

@[simp] theorem sound_bool (b : Bool) : Sound (.bool b) := .bool b

@[simp] theorem bool?_bool (b : Bool) : bool? (.bool b) = some b := rfl

@[simp] theorem required_some (take : Json → Option α) (j : Json) :
    required take (some j) = take j := rfl

theorem means_text (s : String) : Means text? (ofText s) s where
  sound := sound_ofText s
  ne_null := by simp [ofText]
  take_eq := text?_ofText s

theorem case?_ofText (s : String) : (ofText s).case? = some (s, none) := by
  simp [ofText, case?, decode_encode]

/-- A case without data is found by its name, since no other case has that name. -/
theorem means_plainCase {cases : List α} {name : α → String} {a : α} (ha : a ∈ cases)
    (hnames : (cases.map name).Nodup) : Means (plainCase? cases name) (ofText (name a)) a where
  sound := sound_ofText (name a)
  ne_null := by simp [ofText]
  take_eq := by
    obtain ⟨b, hb⟩ : ∃ b, cases.find? (name · == name a) = some b :=
      Option.isSome_iff_exists.mp (List.find?_isSome.mpr ⟨a, ha, by simp⟩)
    have hname : name b = name a := by simpa using List.find?_some hb
    obtain rfl : b = a :=
      List.inj_on_of_nodup_map hnames (List.mem_of_find?_eq_some hb) ha hname
    simp only [plainCase?, case?_ofText, hb]

/-! ## Lists and optional values -/

section Parts

variable {f : α → Json} {take : Json → Option α} (h : ∀ a, Means take (f a) a)
include h

theorem means_list (as : List α) : Means (list? take) (ofList f as) as where
  sound := .array (by simpa using fun a _ => (h a).sound)
  ne_null := by simp [ofList]
  take_eq := by
    have hitems := mapM_map_eq_some (k := id) fun a (_ : a ∈ as) => (h a).take_eq
    simpa [list?, ofList, items?] using hitems

theorem sound_ofOption (o : Option α) : Sound (ofOption f o) := by
  cases o with
  | none => exact .null
  | some a => exact (h a).sound

/-- Only a missing value is written as null. -/
theorem optional_ofOption (o : Option α) : optional take (some (ofOption f o)) = some o := by
  cases o with
  | none => rfl
  | some a =>
      rw [ofOption, optional.eq_3 _ _ (h a).ne_null, (h a).take_eq]
      rfl

end Parts

/-! ## Records -/

section Records

variable {fields : List (String × Json)}

theorem sound_ofFields (h : ∀ p ∈ fields, Sound p.2) : Sound (ofFields fields) := by
  refine .object (fun p hp => ?_) fun p hp => ?_ <;> obtain ⟨q, hq, rfl⟩ := List.mem_map.mp hp
  · exact ⟨q.1.toList, rfl⟩
  · exact h q hq

theorem filter_name {p : String × Json} (hnames : (fields.map (·.1)).Nodup) (hp : p ∈ fields) :
    fields.filter (·.1 == p.1) = [p] := by
  induction fields with
  | nil => cases hp
  | cons q fields ih =>
      obtain ⟨hq, hrest⟩ := List.nodup_cons.mp hnames
      rcases List.mem_cons.mp hp with rfl | hp
      · have hnone : fields.filter (·.1 == p.1) = [] := by
          refine List.filter_eq_nil_iff.mpr fun r hr hname => hq ?_
          exact List.mem_map.mpr ⟨r, hr, by simpa using hname⟩
        rw [List.filter_cons_of_pos (by simp), hnone]
      · have hne : q.1 ≠ p.1 := fun heq => hq (List.mem_map.mpr ⟨p, hp, heq.symm⟩)
        rw [List.filter_cons_of_neg (by simpa using hne), ih hrest hp]

/-- Each field of a record is found under its name. -/
theorem fields?_ofFields {names : List String} (heq : fields.map (·.1) = names)
    (hnames : names.Nodup) :
    (ofFields fields).fields? names = some (fields.map fun p => some p.2) := by
  subst heq
  have hmembers : (fields.map fun p => (encode p.1.toList, p.2)).mapM
      (fun p => do return (String.ofList (← decode p.1), p.2)) = some (fields.map id) :=
    mapM_map_eq_some fun p _ => by simp [decode_encode]
  rw [ofFields, fields?, hmembers, List.map_id, Option.bind_eq_bind, Option.bind_some]
  refine mapM_map_eq_some fun p hp => ?_
  rw [filter_name hnames hp]

/-- A value that is built from the fields of a record in order. -/
theorem take_record {names : List String} {build : List (Option Json) → Option α} {a : α}
    (heq : fields.map (·.1) = names) (hnames : names.Nodup)
    (hbuild : build (fields.map fun p => some p.2) = some a) :
    ((ofFields fields).fields? names >>= build) = some a := by
  rw [fields?_ofFields heq hnames]
  exact hbuild

theorem means_ofFields {take : Json → Option α} {a : α} (hsound : ∀ p ∈ fields, Sound p.2)
    (htake : take (ofFields fields) = some a) : Means take (ofFields fields) a where
  sound := sound_ofFields hsound
  ne_null := by simp [ofFields]
  take_eq := htake

theorem case?_ofFields (name : String) (data : Json) :
    (ofFields [(name, data)]).case? = some (name, some data) := by
  simp [ofFields, case?, decode_encode]

end Records

end SqlReader.Json
