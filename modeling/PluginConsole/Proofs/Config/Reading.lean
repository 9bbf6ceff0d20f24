import PluginConsole.Proofs.Config.Layers

/-!
# What readers give

A reader of a tree in order gives values of a certain kind, a record if each of its fields keeps to
it. What is loaded has rankings of 32 bits, messages in order, and violates no rule.
-/

namespace PluginConsole.Config

namespace Reader

variable {α β σ : Type}

theorem bind_ok {x : Except Problem α} {f : α → Except Problem β} {b : β} (h : x.bind f = .ok b) :
    ∃ a, x = .ok a ∧ f a = .ok b := by
  cases x with
  | error p => cases h
  | ok a => exact ⟨a, rfl, h⟩

theorem map_ok {x : Except Problem α} {f : α → β} {b : β} (h : x.map f = .ok b) :
    ∃ a, x = .ok a ∧ f a = b := by
  cases x with
  | error p => cases h
  | ok a =>
    cases h
    exact ⟨a, rfl, rfl⟩

theorem keyed_ok {key : String} {read : Reader α} {t : Tree} {a : α} :
    keyed key read t = .ok a ↔ read t = .ok a := by
  unfold keyed
  cases read t <;> simp [Except.mapError]

/-! ## Values -/

def Gives (P : α → Prop) (read : Reader α) : Prop :=
  ∀ ⦃t : Tree⦄ ⦃a : α⦄, t.Tidy → read t = .ok a → P a

variable {P : α → Prop} {read : Reader α}

theorem gives_any (read : Reader α) : Gives (fun _ => True) read :=
  fun _ _ _ _ => trivial

theorem gives_int32 : Gives (fun n => Decimal.isInt32 n = true) int32 := by
  intro t n ht h
  unfold int32 at h
  split at h
  · split at h
    · cases h
      assumption
    · cases h
  · cases h

theorem gives_optional (h : Gives P read) : Gives (fun o => ∀ a ∈ o, P a) (optional read) := by
  intro t o ht hread
  unfold optional at hread
  split at hread
  · cases hread
    exact nofun
  · obtain ⟨a, ha, rfl⟩ := map_ok hread
    rintro _ ⟨⟩
    exact h ht ha

theorem gives_itemsFrom (h : Gives P read) {ts : List Tree} (hts : ∀ t ∈ ts, t.Tidy) {i : Nat}
    {as : List α} (hread : itemsFrom read i ts = .ok as) : ∀ a ∈ as, P a := by
  induction ts generalizing i as with
  | nil =>
    cases hread
    exact nofun
  | cons t rest ih =>
    obtain ⟨ht, hrest⟩ := List.forall_mem_cons.mp hts
    obtain ⟨a, ha, hread⟩ := bind_ok hread
    obtain ⟨as', has, heq⟩ := bind_ok hread
    cases heq
    exact List.forall_mem_cons.mpr ⟨h ht (keyed_ok.mp ha), ih hrest has⟩

theorem gives_list (h : Gives P read) : Gives (fun as => ∀ a ∈ as, P a) (list read) := by
  intro t as ht hread
  unfold list at hread
  split at hread
  · cases ht with
    | list _ hitems => exact gives_itemsFrom h hitems hread
  · cases hread

theorem keys_members {entries : List (String × Tree)} {d : Dict α}
    (hread : members read entries = .ok d) : Dict.keys d = Dict.keys entries := by
  induction entries generalizing d with
  | nil =>
    cases hread
    rfl
  | cons e rest ih =>
    obtain ⟨a, -, hread⟩ := bind_ok hread
    obtain ⟨d', hd', heq⟩ := bind_ok hread
    cases heq
    exact congrArg (e.1 :: ·) (ih hd')

theorem gives_members (h : Gives P read) {entries : List (String × Tree)}
    (hentries : ∀ e ∈ entries, e.2.Tidy) {d : Dict α} (hread : members read entries = .ok d) :
    ∀ e ∈ d, P e.2 := by
  induction entries generalizing d with
  | nil =>
    cases hread
    exact nofun
  | cons e rest ih =>
    obtain ⟨he, hrest⟩ := List.forall_mem_cons.mp hentries
    obtain ⟨a, ha, hread⟩ := bind_ok hread
    obtain ⟨d', hd', heq⟩ := bind_ok hread
    cases heq
    exact List.forall_mem_cons.mpr ⟨h he (keyed_ok.mp ha), ih hrest hd'⟩

theorem gives_dict (h : Gives P read) :
    Gives (fun d => Dict.Sorted d ∧ ∀ e ∈ d, P e.2) (dict read) := by
  intro t d ht hread
  unfold dict at hread
  split at hread
  · cases ht with
    | table _ hsorted hentries =>
      refine ⟨?_, gives_members h hentries hread⟩
      rw [Dict.sorted_iff_keys, keys_members hread, ← Dict.sorted_iff_keys]
      exact hsorted
  · cases hread

/-! ## Records -/

def Keeps (P : σ → Prop) (f : Field σ) : Prop :=
  ∀ ⦃t : Tree⦄ ⦃s s' : σ⦄, t.Tidy → P s → f.read t s = .ok s' → P s'

variable {R : σ → Prop} {name : String} {put : α → σ → σ} {fields : List (Field σ)}

theorem keeps_defaulted (h : Gives P read) (hput : ∀ a s, P a → R s → R (put a s)) :
    Keeps R (defaulted name read put) := by
  intro t s s' ht hs hread
  obtain ⟨a, ha, rfl⟩ := map_ok hread
  exact hput a s (h ht ha) hs

theorem keeps_required (h : Gives P read) (hput : ∀ a s, P a → R s → R (put a s)) :
    Keeps R (required name read put) := by
  intro t s s' ht hs hread
  obtain ⟨a, ha, rfl⟩ := map_ok hread
  exact hput a s (h ht ha) hs

theorem keeps_byName (hfields : ∀ f ∈ fields, Keeps R f) {entries : List (String × Tree)}
    (hentries : ∀ e ∈ entries, e.2.Tidy) {s s' : σ} (hs : R s)
    (hread : byName fields entries s = .ok s') : R s' := by
  induction entries generalizing s with
  | nil =>
    cases hread
    exact hs
  | cons e rest ih =>
    obtain ⟨he, hrest⟩ := List.forall_mem_cons.mp hentries
    rw [byName] at hread
    split at hread
    · cases hread
    · rename_i f hf
      obtain ⟨s₁, hfield, hread⟩ := bind_ok hread
      have hs₁ := hfields f (List.mem_of_find?_eq_some hf) he hs (keyed_ok.mp hfield)
      exact ih hrest hs₁ hread

theorem keeps_byPosition (hfields : ∀ f ∈ fields, Keeps R f) {whole : Tree} {tooShort : String}
    {items rest : List Tree} (hitems : ∀ t ∈ items, t.Tidy) {i : Nat} {s s' : σ} (hs : R s)
    (hread : byPosition whole tooShort i fields items s = .ok (s', rest)) : R s' := by
  induction fields generalizing i items s with
  | nil =>
    cases hread
    exact hs
  | cons f fields ih =>
    obtain ⟨hf, hfields⟩ := List.forall_mem_cons.mp hfields
    cases items with
    | nil =>
      rw [byPosition] at hread
      split at hread
      · cases hread
      · exact ih hfields hitems hs hread
    | cons t items =>
      obtain ⟨ht, hitems⟩ := List.forall_mem_cons.mp hitems
      obtain ⟨s₁, hfield, hread⟩ := bind_ok hread
      exact ih hfields hitems (hf ht hs (keyed_ok.mp hfield)) hread

theorem gives_record {strict : Bool} {title : String} {start : σ} (hstart : R start)
    (hfields : ∀ f ∈ fields, Keeps R f) : Gives R (record strict title fields start) := by
  intro t s ht hread
  unfold record at hread
  split at hread
  · cases ht with
    | table _ hsorted hentries =>
      obtain ⟨s', hs', hread⟩ := bind_ok hread
      have hdone := keeps_byName hfields hentries hstart hs'
      split at hread
      · cases hread
      · cases hread
        exact hdone
  · cases ht with
    | list _ hitems =>
      obtain ⟨⟨s', rest⟩, hs', hread⟩ := bind_ok hread
      have hdone := keeps_byPosition hfields hitems hstart hs'
      dsimp only at hread
      split at hread
      · cases hread
      · cases hread
        exact hdone
  · cases hread

end Reader

/-! ## Configurations -/

open Reader

def Ranked (s : ServiceSpec) : Prop :=
  ∀ n ∈ s.ranking, Decimal.isInt32 n = true

/-- What the reader of configurations sees to. -/
structure Sound (c : Config) : Prop where
  ranked : ∀ s ∈ c.services, Ranked s
  sorted : Dict.Sorted c.messages
  tables : ∀ e ∈ c.messages, Dict.Sorted e.2

variable {strict : Bool}

theorem gives_serviceSpec : Gives Ranked (serviceSpec strict) := by
  refine gives_record nofun ?_
  simp only [List.forall_mem_cons]
  refine ⟨?_, ?_, ?_, ?_, ?_, ?_, ?_, nofun⟩
  · exact keeps_required (gives_any _) fun _ _ _ hs => hs
  · exact keeps_required (gives_any _) fun _ _ _ hs => hs
  · exact keeps_defaulted (gives_any _) fun _ _ _ hs => hs
  · exact keeps_defaulted (gives_any _) fun _ _ _ hs => hs
  · exact keeps_defaulted (gives_optional gives_int32) fun _ _ hranking _ => hranking
  · exact keeps_defaulted (gives_any _) fun _ _ _ hs => hs
  · exact keeps_defaulted (gives_any _) fun _ _ _ hs => hs

theorem gives_directorySection : Gives (fun ss => ∀ s ∈ ss, Ranked s) (directorySection strict) :=
  gives_record nofun (List.forall_mem_singleton.mpr
    (keeps_defaulted (gives_list gives_serviceSpec) fun _ _ hservices _ => hservices))

theorem gives_ofTree : Gives Sound (ofTree strict) := by
  refine gives_record ⟨nofun, Dict.sorted_nil, nofun⟩ ?_
  simp only [List.forall_mem_cons]
  refine ⟨?_, ?_, ?_, nofun⟩
  · exact keeps_defaulted (gives_any _) fun _ _ _ hc => ⟨hc.ranked, hc.sorted, hc.tables⟩
  · exact keeps_defaulted gives_directorySection fun _ _ hservices hc =>
      ⟨hservices, hc.sorted, hc.tables⟩
  · refine keeps_defaulted (gives_dict (gives_dict (gives_any text))) fun _ _ hmessages hc => ?_
    exact ⟨hc.ranked, hmessages.1, fun e he => (hmessages.2 e he).1⟩

theorem extract_ok {files : List SourceFile} {t : Tree} {c : Config} :
    extract files t = .ok c ↔ ofTree false t = .ok c ∧ violations c = [] := by
  unfold extract
  cases hread : ofTree false t with
  | error p => simp
  | ok c' =>
    dsimp only
    split
    · rename_i hnone
      rw [List.isEmpty_iff] at hnone
      constructor
      · rintro ⟨⟩
        exact ⟨rfl, hnone⟩
      · rintro ⟨⟨⟩, -⟩
        rfl
    · rename_i hsome
      rw [List.isEmpty_iff] at hsome
      constructor
      · rintro ⟨⟩
      · rintro ⟨⟨⟩, hnone⟩
        exact absurd hnone hsome

theorem load_ok {texts : List TomlText} {env : List Variable} {files : List SourceFile} {c : Config}
    (h : load texts env files = .ok c) : Sound c ∧ violations c = [] := by
  unfold load at h
  dsimp only at h
  split at h
  · obtain ⟨hread, hviolations⟩ := extract_ok.mp h
    refine ⟨gives_ofTree (tidy_merged fun t ht => ?_) hread, hviolations⟩
    rcases List.mem_append.mp ht with ht | ht
    · obtain ⟨text, -, htext⟩ := List.mem_filterMap.mp ht
      exact text.tidy htext
    · rw [List.mem_singleton.mp ht]
      exact tidy_environmentTree env
  · cases h

end PluginConsole.Config
