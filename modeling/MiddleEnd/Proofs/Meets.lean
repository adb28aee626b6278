/-! What holds after a computation that has a state and can fail. -/

namespace MiddleEnd

variable {σ ε α β : Type} {computation : StateT σ (Except ε) α} {rest : α → StateT σ (Except ε) β}
  {result : β} {later : σ} {value : α} {error : ε} {between : α → σ → Prop} {change : σ → σ}

theorem bind_eq_ok {computation : Except ε α} {rest : α → Except ε β} :
    computation >>= rest = .ok result ↔ ∃ value, computation = .ok value ∧ rest value = .ok result := by
  cases computation with
  | ok value =>
    constructor
    · exact fun run => ⟨value, rfl, run⟩
    · rintro ⟨_, same, run⟩
      cases same
      exact run
  | error _ =>
    constructor
    · exact fun run => nomatch run
    · exact fun ⟨_, impossible, _⟩ => nomatch impossible

theorem run_bind_of_run {state final : σ} (first : computation.run state = .ok (value, later))
    (second : (rest value).run later = .ok (result, final)) :
    (computation >>= rest).run state = .ok (result, final) := by
  rw [StateT.run_bind, first]
  exact second

def Yields (fails : ε → Prop) (outcome : Except ε α) (post : α → Prop) : Prop :=
  match outcome with
  | .ok value => post value
  | .error error => fails error

namespace Yields

variable {fails : ε → Prop} {outcome : Except ε α} {post post' : α → Prop}

theorem pure (holds : post value) : Yields fails (Pure.pure value) post := holds

theorem throw (allowed : fails error) : Yields fails (MonadExcept.throw error : Except ε α) post :=
  allowed

theorem bind {rest : α → Except ε β} {post : β → Prop} {between : α → Prop}
    (first : Yields fails outcome between)
    (second : ∀ value, between value → Yields fails (rest value) post) :
    Yields fails (outcome >>= rest) post := by
  cases outcome with
  | ok value => exact second value first
  | error _ => exact first

section

variable (yields : Yields fails outcome post)
include yields

theorem weaken (weaker : ∀ value, post value → post' value) : Yields fails outcome post' := by
  cases outcome with
  | ok value => exact weaker value yields
  | error _ => exact yields

theorem loosen {fails' : ε → Prop}
    (looser : ∀ error, fails error → fails' error) : Yields fails' outcome post := by
  cases outcome with
  | ok _ => exact yields
  | error error => exact looser error yields

theorem with_eq : Yields fails outcome fun value => outcome = .ok value ∧ post value := by
  cases outcome with
  | ok _ => exact ⟨rfl, yields⟩
  | error _ => exact yields

theorem of_eq (done : outcome = .ok value) : post value := by
  rw [done] at yields
  exact yields

end

end Yields

def Meets (fails : ε → Prop) (computation : StateT σ (Except ε) α) (state : σ)
    (post : α → σ → Prop) : Prop :=
  Yields fails (computation.run state) fun (value, later) => post value later

namespace Meets

variable {fails : ε → Prop} {state : σ} {post post' : α → σ → Prop}

theorem pure (holds : post value state) : Meets fails (Pure.pure value) state post :=
  holds

theorem bind {post : β → σ → Prop} (first : Meets fails computation state between)
    (second : ∀ value later, between value later → Meets fails (rest value) later post) :
    Meets fails (computation >>= rest) state post :=
  Yields.bind first fun (value, later) holds => second value later holds

theorem map {make : α → β} {post : β → σ → Prop} (first : Meets fails computation state between)
    (second : ∀ value later, between value later → post (make value) later) :
    Meets fails (computation >>= fun value => Pure.pure (make value)) state post :=
  bind first second

theorem get {rest : σ → StateT σ (Except ε) α} (meets : Meets fails (rest state) state post) :
    Meets fails (MonadState.get >>= rest) state post :=
  meets

theorem set {rest : PUnit → StateT σ (Except ε) α} (meets : Meets fails (rest ⟨⟩) later post) :
    Meets fails (MonadStateOf.set later >>= rest) state post :=
  meets

theorem modify {rest : PUnit → StateT σ (Except ε) α}
    (meets : Meets fails (rest ⟨⟩) (change state) post) :
    Meets fails (modify change >>= rest) state post :=
  meets

theorem throw (allowed : fails error) :
    Meets fails (MonadExcept.throw error : StateT σ (Except ε) α) state post :=
  allowed

section

variable (meets : Meets fails computation state post)
include meets

theorem weaken (weaker : ∀ value later, post value later → post' value later) :
    Meets fails computation state post' :=
  Yields.weaken meets fun (value, later) holds => weaker value later holds

theorem of_run (run : computation.run state = .ok (value, later)) : post value later := by
  unfold Meets at meets
  rw [run] at meets
  exact meets

theorem with_run (more : ∀ value later, computation.run state = .ok (value, later) → post value later →
      post' value later) : Meets fails computation state post' :=
  (Yields.with_eq meets).weaken fun (value, later) ⟨run, holds⟩ => more value later run holds

end

theorem bind_run {post : β → σ → Prop} (first : Meets fails computation state between)
    (second : ∀ value later, computation.run state = .ok (value, later) → between value later →
      Meets fails (rest value) later post) :
    Meets fails (computation >>= rest) state post :=
  .bind (first.with_run fun _ _ run holds => And.intro run holds)
    fun value later ⟨run, holds⟩ => second value later run holds

theorem and (first : Meets fails computation state post) (second : Meets fails computation state post') :
    Meets fails computation state fun value later => post value later ∧ post' value later :=
  first.with_run fun _ _ run holds => ⟨holds, second.of_run run⟩

theorem trivially (computation : StateT σ (Except ε) α) (state : σ) :
    Meets (fun _ => True) computation state fun _ _ => True := by
  unfold Meets Yields
  split <;> trivial

theorem after {post : β → σ → Prop}
    (second : ∀ value later, computation.run state = .ok (value, later) →
      Meets (fun _ => True) (rest value) later post) :
    Meets (fun _ => True) (computation >>= rest) state post :=
  .bind_run (.trivially _ _) fun value later run _ => second value later run

theorem lift {outcome : Except ε α} (succeeds : ∀ value, outcome = .ok value → post value state)
    (failure : ∀ error, outcome = .error error → fails error) :
    Meets fails (liftM outcome : StateT σ (Except ε) α) state post := by
  cases outcome with
  | ok value => exact succeeds value rfl
  | error error => exact failure error rfl

end Meets

def Gives (computation : StateM σ α) (state : σ) (post : α → σ → Prop) : Prop :=
  post (computation.run state).1 (computation.run state).2

namespace Gives

variable {state : σ} {post post' : α → σ → Prop}

theorem pure (holds : post value state) : Gives (Pure.pure value) state post := holds

theorem bind {computation : StateM σ α} {rest : α → StateM σ β} {post : β → σ → Prop}
    (first : Gives computation state between)
    (second : ∀ value later, between value later → Gives (rest value) later post) :
    Gives (computation >>= rest) state post :=
  second _ _ first

theorem get {rest : σ → StateM σ α} (gives : Gives (rest state) state post) :
    Gives (MonadState.get >>= rest) state post :=
  gives

theorem modify {post : PUnit → σ → Prop} (holds : post ⟨⟩ (change state)) :
    Gives (modify change) state post :=
  holds

theorem set {later : σ} {post : PUnit → σ → Prop} (holds : post ⟨⟩ later) :
    Gives (MonadStateOf.set later) state post :=
  holds

theorem weaken {computation : StateM σ α} (gives : Gives computation state post)
    (weaker : ∀ value later, post value later → post' value later) :
    Gives computation state post' :=
  weaker _ _ gives

end Gives

end MiddleEnd
