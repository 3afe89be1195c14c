import Mathlib.Data.List.Forall2

namespace SingBox.Library

-- An error is its chain of messages, the outermost context first.
abbrev Result := Except (List String)

namespace Result

variable {α β : Type}

def bail (message : String) : Result α := .error [message]

def ensure (condition : Bool) (message : String) : Result Unit :=
  if condition then .ok () else bail message

def withContext (context : String) : Result α → Result α
  | .ok value => .ok value
  | .error chain => .error (context :: chain)

-- The value, if there is one; the error is whatever `message` is then.
def ofOption (message : String) : Option α → Result α
  | some value => .ok value
  | none => bail message

theorem withContext_eq_ok {context : String} {result : Result α} {value : α} :
    withContext context result = .ok value ↔ result = .ok value := by
  cases result <;> simp [withContext]

theorem bind_eq_ok {result : Result α} {next : α → Result β} {value : β} :
    (result >>= next) = .ok value ↔ ∃ mid, result = .ok mid ∧ next mid = .ok value := by
  cases result with
  | error chain => simp [Bind.bind, Except.bind]
  | ok mid => simp [Bind.bind, Except.bind]

theorem withContext_eq_error {context : String} {result : Result α} {chain : List String} :
    withContext context result = .error chain ↔
      ∃ inner, result = .error inner ∧ chain = context :: inner := by
  cases result with
  | ok value => simp [withContext]
  | error inner => simp [withContext, eq_comm]

theorem bind_eq_error {result : Result α} {next : α → Result β} {chain : List String} :
    (result >>= next) = .error chain ↔
      result = .error chain ∨ ∃ mid, result = .ok mid ∧ next mid = .error chain := by
  cases result with
  | error chain => simp [Bind.bind, Except.bind]
  | ok mid => simp [Bind.bind, Except.bind]

theorem ensure_eq_ok {condition : Bool} {message : String} :
    ensure condition message = .ok () ↔ condition = true := by
  cases condition <;> simp [ensure, bail]

theorem ensure_bind_eq_ok {condition : Bool} {message : String} {next : Unit → Result α}
    {value : α} :
    (ensure condition message >>= next) = .ok value ↔ condition = true ∧ next () = .ok value := by
  cases condition <;> simp [ensure, bail, Bind.bind, Except.bind]

theorem ensure_eq_error {condition : Bool} {message : String} {chain : List String} :
    ensure condition message = .error chain ↔ condition = false ∧ chain = [message] := by
  cases condition <;> simp [ensure, bail, eq_comm]

theorem ofOption_eq_ok {message : String} {option : Option α} {value : α} :
    ofOption message option = .ok value ↔ option = some value := by
  cases option <;> simp [ofOption, bail]

-- A list is converted when each of its elements is.
theorem mapM_eq_ok {convert : α → Result β} {values : List α} {converted : List β} :
    values.mapM convert = .ok converted ↔
      List.Forall₂ (fun value result => convert value = .ok result) values converted := by
  induction values generalizing converted with
  | nil => cases converted <;> simp [pure, Except.pure]
  | cons value values ih =>
      rw [List.mapM_cons, bind_eq_ok]
      constructor
      · rintro ⟨result, hv, hr⟩
        obtain ⟨results, hvs, he⟩ := bind_eq_ok.mp hr
        obtain rfl : result :: results = converted := by simpa [pure, Except.pure] using he
        exact .cons hv (ih.mp hvs)
      · rintro (_ | ⟨hv, hvs⟩)
        exact ⟨_, hv, bind_eq_ok.mpr ⟨_, ih.mpr hvs, rfl⟩⟩

-- Each result comes from one of the values.
theorem mapM_mem {convert : α → Result β} {values : List α} {converted : List β}
    (h : values.mapM convert = .ok converted) {result : β} (hr : result ∈ converted) :
    ∃ value ∈ values, convert value = .ok result := by
  have hrel := mapM_eq_ok.mp h
  clear h
  induction hrel with
  | nil => cases hr
  | @cons value other values results hvalue _ ih =>
      obtain rfl | htail := List.mem_cons.mp hr
      · exact ⟨value, List.mem_cons_self, hvalue⟩
      · obtain ⟨value, hmem, hv⟩ := ih htail
        exact ⟨value, List.mem_cons_of_mem _ hmem, hv⟩

theorem mapM_each {convert : α → Result β} {values : List α} {converted : List β}
    (h : values.mapM convert = .ok converted) {value : α} (hv : value ∈ values) :
    ∃ result, convert value = .ok result := by
  have hrel := mapM_eq_ok.mp h
  clear h
  induction hrel with
  | nil => cases hv
  | @cons first result values results hfirst _ ih =>
      obtain rfl | hrest := List.mem_cons.mp hv
      · exact ⟨result, hfirst⟩
      · exact ih hrest

theorem mapM_eq_map {convert : α → Result β} {values : List α} {converted : List β} {f : α → β}
    (h : values.mapM convert = .ok converted)
    (hf : ∀ value ∈ values, ∀ result, convert value = .ok result → result = f value) :
    converted = values.map f := by
  have hrel := mapM_eq_ok.mp h
  clear h
  induction hrel with
  | nil => rfl
  | @cons value result values results hvalue _ ih =>
      obtain ⟨hfirst, hrest⟩ := List.forall_mem_cons.mp hf
      rw [List.map_cons, ← hfirst result hvalue, ← ih hrest]

-- An error is that of one of the values.
theorem mapM_error {convert : α → Result β} {values : List α} {chain : List String}
    (h : values.mapM convert = .error chain) : ∃ value ∈ values, convert value = .error chain := by
  induction values with
  | nil => cases h
  | cons value values ih =>
      rw [List.mapM_cons] at h
      cases hvalue : convert value with
      | error first =>
          rw [hvalue] at h
          cases h
          exact ⟨value, List.mem_cons_self, hvalue⟩
      | ok result =>
          rw [hvalue] at h
          cases hvalues : values.mapM convert with
          | error rest =>
              obtain rfl : rest = chain := by simpa [hvalues, Bind.bind, Except.bind] using h
              obtain ⟨other, hmem, hother⟩ := ih hvalues
              exact ⟨other, List.mem_cons_of_mem _ hmem, hother⟩
          | ok results => simp [hvalues, Bind.bind, Except.bind, pure, Except.pure] at h

theorem forM_eq_ok {check : α → Result Unit} {values : List α} :
    values.forM check = .ok () ↔ ∀ value ∈ values, check value = .ok () := by
  induction values with
  | nil => simp [pure, Except.pure]
  | cons value values ih =>
      show (check value >>= fun _ => values.forM check) = .ok () ↔ _
      rw [bind_eq_ok, List.forall_mem_cons]
      constructor
      · rintro ⟨⟨⟩, hvalue, hvalues⟩
        exact ⟨hvalue, ih.mp hvalues⟩
      · rintro ⟨hvalue, hvalues⟩
        exact ⟨(), hvalue, ih.mpr hvalues⟩

-- What every step of a loop keeps, the loop keeps.
theorem foldlM_rule {step : β → α → Result β} (inv : β → Prop) {values : List α}
    (hstep : ∀ state value next, value ∈ values → inv state → step state value = .ok next → inv next)
    {state final : β} (hi : inv state) (hf : values.foldlM step state = .ok final) : inv final := by
  induction values generalizing state with
  | nil =>
      obtain rfl : state = final := by simpa [pure, Except.pure] using hf
      exact hi
  | cons value values ih =>
      rw [List.foldlM_cons] at hf
      obtain ⟨next, hnext, hf⟩ := bind_eq_ok.mp hf
      exact ih (fun state other next hother => hstep state other next (List.mem_cons_of_mem _ hother))
        (hstep state value next List.mem_cons_self hi hnext) hf

theorem mapM_congr {convert other : α → Result β} {values : List α}
    (h : ∀ value ∈ values, convert value = other value) :
    values.mapM convert = values.mapM other := by
  induction values with
  | nil => rfl
  | cons value values ih =>
      obtain ⟨hvalue, hvalues⟩ := List.forall_mem_cons.mp h
      rw [List.mapM_cons, List.mapM_cons, hvalue, ih hvalues]

-- What is left out of a list is left out of its conversion.
theorem mapM_sublist {convert : α → Result β} {part values : List α} {converted : List β}
    (hp : part.Sublist values) (hv : values.mapM convert = .ok converted) :
    ∃ results : List β, results.Sublist converted ∧ part.mapM convert = .ok results := by
  simp only [mapM_eq_ok] at hv ⊢
  induction hp generalizing converted with
  | slnil => exact ⟨[], List.nil_sublist _, .nil⟩
  | cons value _ ih =>
      obtain ⟨_, _, _, htail, rfl⟩ := List.forall₂_cons_left_iff.mp hv
      obtain ⟨results, hs, hr⟩ := ih htail
      exact ⟨results, hs.cons _, hr⟩
  | cons_cons value _ ih =>
      obtain ⟨result, _, hhead, htail, rfl⟩ := List.forall₂_cons_left_iff.mp hv
      obtain ⟨results, hs, hr⟩ := ih htail
      exact ⟨result :: results, hs.cons_cons _, .cons hhead hr⟩

end Result

end SingBox.Library
