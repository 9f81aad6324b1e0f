import Shoutmark.Proofs.Reading.Outcome

/-! Which words a reading deals with. What a place holds, what a fault names and what has a value
are words that were read; none is made up, and none is changed. -/

namespace Shoutmark

def Fault.word : Fault → String
  | .mismatch _ found => found
  | .unknownConstruct token => token
  | .notText token => token
  | .undefinedVariable name => name

theorem Variables.mem_names_set {name value n : String} {v : Variables}
    (h : n ∈ (v.set name value).names) : n = name ∨ n ∈ v.names := by
  rw [names_set] at h
  split at h
  · exact Or.inr h
  · rcases List.mem_append.mp h with h | h
    · exact Or.inr h
    · exact Or.inl (List.mem_singleton.mp h)

end Shoutmark

namespace Shoutmark.Reading
open Shoutmark.Grammar

def Place.words : Place → List String
  | .comment ws | .titleText ws | .styled _ _ ws => ws
  | .addressEnd _ _ a => [a]
  | .it _ n | .iz _ n | .useEnd _ n => [n]
  | .value _ n ws => n :: ws
  | _ => []

/-- All words that a progress deals with are of the kind. -/
def Progress.Within (A : String → Prop) : Progress → Prop
  | .going q s => (∀ w ∈ q.words, A w) ∧ ∀ n ∈ s.values.names, A n
  | .finished s => ∀ n ∈ s.values.names, A n
  | .refused f s => A f.word ∧ ∀ n ∈ s.values.names, A n

variable {lists : Bool} {A : String → Prop}

theorem within_stepForms (f : Frame) {t : String} {s : Sheet} (ht : A t)
    (hn : ∀ n ∈ s.values.names, A n) : (stepForms f t s).Within A := by
  have nothing : ∀ w ∈ ([] : List String), A w := fun w hw => nomatch hw
  refine gather_of ⟨ht, hn⟩ (fun _ _ => ?_) fun _ => ?_
  · split
    · exact ⟨nothing, hn⟩
    · unfold stepForm
      split
      · exact ⟨nothing, hn⟩
      · exact ⟨nothing, hn⟩
      · exact ⟨nothing, hn⟩
      · split
        · exact ⟨nothing, hn⟩
        · exact ⟨ht, hn⟩
  · cases f with
    | body => exact hn
    | paragraph => exact ⟨nothing, hn⟩
    | item => exact ⟨nothing, hn⟩

/-- A token adds no word but itself. -/
theorem within_step {q : Place} {t : String} {s : Sheet} (ht : A t) (hq : ∀ w ∈ q.words, A w)
    (hn : ∀ n ∈ s.values.names, A n) : (step lists q t s).Within A := by
  have nothing : ∀ w ∈ ([] : List String), A w := fun w hw => nomatch hw
  have refused {e : Fault} (he : e.word = t) : (Progress.refused e s).Within A := ⟨he ▸ ht, hn⟩
  have one {a : String} (ha : A a) : ∀ w ∈ [a], A w := by simpa using ha
  have more {ws : List String} (hws : ∀ w ∈ ws, A w) : ∀ w ∈ ws ++ [t], A w := by
    intro w hw
    rcases List.mem_append.mp hw with hw | hw
    · exact hws w hw
    · exact one ht w hw
  have unheld {q' : Place} (hq' : q'.words = []) : (Progress.going q' s).Within A :=
    ⟨by rw [hq']; exact nothing, hn⟩
  cases q with
  | start => exact require_of (refused rfl) fun _ => unheld rfl
  | opening =>
    rw [step]
    split
    · exact unheld rfl
    · exact unheld rfl
    · exact within_stepForms .body ht hn
  | comment ws => exact gather_of (refused rfl) (fun _ _ => ⟨more hq, hn⟩) fun _ => ⟨nothing, hn⟩
  | headWord => exact require_of (refused rfl) fun _ => unheld rfl
  | head =>
    refine gather_of (refused rfl) (fun _ _ => ?_) fun _ => unheld rfl
    split <;> exact unheld rfl
  | titleWord => exact require_of (refused rfl) fun _ => unheld rfl
  | titleText ws =>
    exact gather_of (refused rfl) (fun _ _ => ⟨more hq, hn⟩) fun _ => ⟨nothing, hn⟩
  | forms f => exact within_stepForms f ht hn
  | block =>
    rw [step]
    split
    · exact ⟨nothing, hn⟩
    · exact require_of (refused rfl) fun _ => ⟨nothing, hn⟩
  | items =>
    rw [step]
    split
    · exact unheld rfl
    · exact require_of ⟨ht, hn⟩ fun _ => ⟨nothing, hn⟩
  | itemWord => exact require_of (refused rfl) fun _ => ⟨nothing, hn⟩
  | construct f =>
    rw [step, stepConstruct]
    split
    · exact ⟨nothing, hn⟩
    · exact ⟨nothing, hn⟩
    · exact ⟨nothing, hn⟩
    · exact unheld rfl
    · exact unheld rfl
    · exact refused rfl
  | styled f style ws =>
    exact gather_of ⟨ht, hn⟩ (fun _ _ => ⟨more hq, hn⟩) fun _ => ⟨nothing, hn⟩
  | address f m => exact ⟨one ht, hn⟩
  | addressEnd f m a => exact require_of (refused rfl) fun _ => ⟨nothing, hn⟩
  | haz f => exact require_of (refused rfl) fun _ => unheld rfl
  | name f => exact ⟨one ht, hn⟩
  | it f n => exact require_of (refused rfl) fun _ => ⟨hq, hn⟩
  | iz f n => exact require_of (refused rfl) fun _ => ⟨hq, hn⟩
  | value f n ws =>
    have hn' : ∀ m ∈ (s.values.set n (phraseOf ws)).names, A m := by
      intro m hm
      rcases Variables.mem_names_set hm with rfl | hm
      · exact hq m List.mem_cons_self
      · exact hn m hm
    exact gather_of ⟨ht, hn'⟩ (fun _ _ => ⟨more hq, hn⟩) fun _ => ⟨nothing, hn'⟩
  | see f => exact require_of (refused rfl) fun _ => unheld rfl
  | usedName f => exact ⟨one ht, hn⟩
  | useEnd f n =>
    refine require_of (refused rfl) fun _ => ?_
    unfold useValue
    split
    · exact ⟨nothing, hn⟩
    · exact ⟨hq n List.mem_cons_self, hn⟩

theorem within_feed {p : Progress} {u : List String} (hu : ∀ t ∈ u, A t) (hp : p.Within A) :
    (feed lists p u).Within A := by
  induction u generalizing p with
  | nil => exact hp
  | cons t u ih =>
    refine ih (fun r hr => hu r (List.mem_cons_of_mem t hr)) ?_
    cases p with
    | going q s => exact within_step (hu t List.mem_cons_self) hp.1 hp.2
    | finished s => exact hp
    | refused f s => exact hp

/-- The names that have a value in an accepted program are among its tokens. -/
theorem names_of_ok {T : List String} {d : Draft} (h : program lists (.start T) = .ok () d) :
    ∀ n ∈ d.values.names, n ∈ T := by
  have hp : Progress.fresh.Within (· ∈ T) :=
    ⟨fun w hw => (nomatch hw), fun n hn => (nomatch hn)⟩
  have hw : (feed lists .fresh T).Within (· ∈ T) := within_feed (fun t ht => ht) hp
  rw [feed_of_ok h] at hw
  exact hw

end Shoutmark.Reading
