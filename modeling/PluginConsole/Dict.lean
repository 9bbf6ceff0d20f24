/-!
# Dictionaries

Text keys, each with one value, in ascending order of the keys. Code points and
UTF-8 bytes order text alike, so this is also the byte order. `List.lookup`
reads a key; the lemmas say what writing does to reading.
-/

namespace PluginConsole

abbrev Dict (α : Type u) := List (String × α)

namespace Dict

variable {α : Type u} {β : Type v}

/-- Files `value` under `key`, in place of what was there. -/
def insert (key : String) (value : α) : Dict α → Dict α
  | [] => [(key, value)]
  | (k, v) :: rest =>
    if key < k then (key, value) :: (k, v) :: rest
    else if key = k then (key, value) :: rest
    else (k, v) :: insert key value rest

def erase (key : String) (d : Dict α) : Dict α :=
  d.filter fun entry => entry.1 ≠ key

def has (key : String) (d : Dict α) : Bool :=
  (d.lookup key).isSome

def keys (d : Dict α) : List String :=
  d.map Prod.fst

def mapValues (f : α → β) (d : Dict α) : Dict β :=
  d.map fun entry => (entry.1, f entry.2)

/-- All pairs of `later` filed over `earlier`. -/
def overlay (earlier : Dict α) (later : List (String × α)) : Dict α :=
  later.foldl (fun d entry => insert entry.1 entry.2 d) earlier

/-- The last value of a repeated key counts. -/
def ofList (entries : List (String × α)) : Dict α :=
  overlay [] entries

/-- Keys in ascending order, none twice. -/
def Sorted (d : Dict α) : Prop :=
  d.Pairwise fun a b => a.1 < b.1

/-! ## Reading after writing -/

theorem lookup_insert_self (key : String) (value : α) (d : Dict α) :
    (insert key value d).lookup key = some value := by
  induction d with
  | nil => simp [insert]
  | cons entry rest ih =>
    obtain ⟨k, v⟩ := entry
    simp only [insert]
    split
    · simp
    · split
      · simp
      · rename_i _ h
        simp [List.lookup_cons, beq_false_of_ne h, ih]

theorem lookup_insert_of_ne {key other : String} (h : other ≠ key) (value : α) (d : Dict α) :
    (insert key value d).lookup other = d.lookup other := by
  induction d with
  | nil => simp [insert, List.lookup_cons, beq_false_of_ne h]
  | cons entry rest ih =>
    obtain ⟨k, v⟩ := entry
    simp only [insert]
    split
    · simp [List.lookup_cons, beq_false_of_ne h]
    · split
      · rename_i _ hk
        subst hk
        simp [List.lookup_cons, beq_false_of_ne h]
      · by_cases hk : other = k
        · subst hk
          simp
        · simp [List.lookup_cons, beq_false_of_ne hk, ih]

theorem lookup_insert (key other : String) (value : α) (d : Dict α) :
    (insert key value d).lookup other = if other = key then some value else d.lookup other := by
  split
  · rename_i h
    rw [h, lookup_insert_self]
  · rename_i h
    exact lookup_insert_of_ne h value d

theorem lookup_erase_self (key : String) (d : Dict α) : (erase key d).lookup key = none := by
  induction d with
  | nil => rfl
  | cons entry rest ih =>
    obtain ⟨k, v⟩ := entry
    by_cases h : k = key
    · simpa [erase, h] using ih
    · have h' : key ≠ k := fun e => h e.symm
      simpa [erase, h, List.lookup_cons, beq_false_of_ne h'] using ih

theorem lookup_erase_of_ne {key other : String} (h : other ≠ key) (d : Dict α) :
    (erase key d).lookup other = d.lookup other := by
  induction d with
  | nil => rfl
  | cons entry rest ih =>
    obtain ⟨k, v⟩ := entry
    by_cases hk : k = key
    · have h' : other ≠ k := fun e => h (e.trans hk)
      simpa [erase, hk, List.lookup_cons, beq_false_of_ne h] using ih
    · by_cases ho : other = k
      · subst ho
        simp [erase, hk]
      · simpa [erase, hk, List.lookup_cons, beq_false_of_ne ho] using ih

end Dict

end PluginConsole
