import MessageApp.Runs

/-! A post office for letters between any two users. A letter takes effect in four stages: its
copies reach the two boxes, then the two boxes announce it. Every author works through the
stages of their letters one after the other; the authors interleave freely. -/
namespace MessageApp
namespace PostOffice

inductive Stage
  | ownCopy | peerCopy | ownNotice | peerNotice
  deriving DecidableEq

variable {U T : Type}

structure Letter (U T : Type) where
  author : U
  peer : U
  text : T
  deriving DecidableEq

structure Effect (U T : Type) where
  letter : Letter U T
  stage : Stage
  deriving DecidableEq

namespace Letter

def effects (l : Letter U T) : List (Effect U T) :=
  [⟨l,.ownCopy⟩,⟨l,.peerCopy⟩,⟨l,.ownNotice⟩,⟨l,.peerNotice⟩]

end Letter

/-- All letters posted, oldest first, the effects each author still owes, and those that have
happened, newest first. -/
structure Office (U T : Type) where
  letters : List (Letter U T)
  queue : U → List (Effect U T)
  done : List (Effect U T)

inductive Event (U T : Type)
  | post (l : Letter U T)
  | act (author : U)

variable [DecidableEq U]

def Letter.textFor (x y : U) (l : Letter U T) : Option T :=
  if l.author = x ∧ l.peer = y then some l.text else none

namespace Effect

def intoBox (x y : U) (e : Effect U T) : Option (U × T) :=
  match e.stage with
  | .ownCopy => if e.letter.author = x ∧ e.letter.peer = y then some (x,e.letter.text) else none
  | .peerCopy => if e.letter.peer = x ∧ e.letter.author = y then some (y,e.letter.text) else none
  | _ => none

def announces (x y : U) (e : Effect U T) : Option T :=
  match e.stage with
  | .ownNotice => if e.letter.author = x ∧ e.letter.peer = y then some e.letter.text else none
  | .peerNotice => if e.letter.peer = x ∧ e.letter.author = y then some e.letter.text else none
  | _ => none

/-- The text an effect brings from `x` to `y`, where its stage is the given one. -/
def brings (stage : Stage) (x y : U) (e : Effect U T) : Option T :=
  if e.stage = stage ∧ e.letter.author = x ∧ e.letter.peer = y then some e.letter.text else none

end Effect

namespace Office

def start : Office U T := ⟨[],fun _ => [],[]⟩

def step (o : Office U T) : Event U T → Option (Office U T)
  | .post l =>
    some { o with
      letters := o.letters ++ [l]
      queue := Function.update o.queue l.author (o.queue l.author ++ l.effects) }
  | .act u =>
    match o.queue u with
    | [] => none
    | e::rest => some { o with done := e::o.done, queue := Function.update o.queue u rest }

def box (o : Office U T) (x y : U) : List (U × T) := o.done.filterMap (Effect.intoBox x y)

def notice (o : Office U T) (x y : U) : Option T := o.done.findSome? (Effect.announces x y)

def posted (o : Office U T) (x y : U) : List T := o.letters.filterMap (Letter.textFor x y)

/-- What an author has done and still owes are the stages of their letters, in order. -/
def Sequential (o : Office U T) : Prop :=
  ∀ u, (o.done.reverse.filter fun e => e.letter.author = u) ++ o.queue u =
    (o.letters.filter fun l => l.author = u).flatMap Letter.effects

end Office

def office (U T : Type) [DecidableEq U] : Machine (Office U T) (Event U T) :=
  ⟨Office.start,Office.step⟩

namespace Office

variable {o p : Office U T} {x y : U}

theorem step_act {u : U} (h : o.step (.act u) = some p) :
    ∃ e rest, o.queue u = e::rest ∧
      p = { o with done := e::o.done, queue := Function.update o.queue u rest } := by
  simp only [step] at h
  split at h
  · simp at h
  · rename_i e rest hq
    exact ⟨e,rest,hq,(Option.some.inj h).symm⟩

theorem Sequential.author_of_queue (h : o.Sequential) {u : U} {e : Effect U T} (he : e ∈ o.queue u) :
    e.letter.author = u := by
  have hmem : e ∈ (o.letters.filter fun l => l.author = u).flatMap Letter.effects :=
    h u ▸ List.mem_append_right _ he
  obtain ⟨l,hl,he⟩ := List.mem_flatMap.mp hmem
  have hu : l.author = u := by simpa using (List.mem_filter.mp hl).2
  simp only [Letter.effects,List.mem_cons,List.not_mem_nil,or_false] at he
  rcases he with rfl | rfl | rfl | rfl <;> exact hu

theorem sequential_start : (start : Office U T).Sequential := fun _ => rfl

theorem Sequential.step {e : Event U T} (h : o.Sequential) (hstep : o.step e = some p) :
    p.Sequential := by
  cases e with
  | post l =>
    obtain rfl := Option.some.inj hstep
    intro u
    by_cases hu : l.author = u
    · subst hu
      simpa [List.filter_append,← List.append_assoc] using h l.author
    · have hne : u ≠ l.author := fun he => hu he.symm
      simpa [List.filter_append,hu,Function.update_of_ne hne] using h u
  | act v =>
    obtain ⟨e,rest,hq,rfl⟩ := step_act hstep
    have hv := h.author_of_queue (hq ▸ List.mem_cons_self : e ∈ o.queue v)
    intro u
    by_cases hu : v = u
    · subst hu
      rw [← h v,hq]
      simp [List.filter_append,hv]
    · have hne : u ≠ v := fun he => hu he.symm
      have hother : ¬ e.letter.author = u := fun he => hu (hv.symm.trans he)
      simpa [List.filter_append,hother,Function.update_of_ne hne] using h u

theorem Sequential.of_reachable (h : (office U T).Reachable o) : o.Sequential := by
  refine h.invariant sequential_start ?_
  intro s e t hs hstep
  exact hs.step hstep

end Office

section
variable {l a b : List (Effect U T)} {m : Letter U T} {x y : U}

omit [DecidableEq U] in
theorem within_or_behind (h : l <+: a ++ b) : l <+: a ∨ ∃ r, r <+: b ∧ a ++ r = l := by
  rcases List.prefix_or_prefix_of_prefix h (List.prefix_append a b) with hshort | ⟨r,rfl⟩
  · exact Or.inl hshort
  · exact Or.inr ⟨r,(List.prefix_append_right_inj a).mp h,rfl⟩

omit [DecidableEq U] in
theorem stages (h : l <+: m.effects) :
    l = [] ∨ l = [⟨m,.ownCopy⟩] ∨ l = [⟨m,.ownCopy⟩,⟨m,.peerCopy⟩] ∨
      l = [⟨m,.ownCopy⟩,⟨m,.peerCopy⟩,⟨m,.ownNotice⟩] ∨ l = m.effects := by
  obtain ⟨r,hr⟩ := h
  have hlen : l.length ≤ 4 := by
    have hsum := congrArg List.length hr
    simp only [List.length_append,Letter.effects,List.length_cons,List.length_nil] at hsum
    omega
  have htake : l = m.effects.take l.length := by
    rw [← hr,List.take_left]
  generalize l.length = n at hlen htake
  subst htake
  interval_cases n <;> simp [Letter.effects]

omit [DecidableEq U] in
/-- Where a letter is announced, both its copies are there. -/
theorem copies_of_notice {ls : List (Letter U T)} (h : l <+: ls.flatMap Letter.effects)
    {e : Effect U T} (he : e ∈ l) (hstage : e.stage = .ownNotice ∨ e.stage = .peerNotice) :
    ⟨e.letter,.ownCopy⟩ ∈ l ∧ ⟨e.letter,.peerCopy⟩ ∈ l := by
  induction ls generalizing l with
  | nil =>
    obtain rfl : l = [] := by simpa using h
    exact absurd he List.not_mem_nil
  | cons m ls ih =>
    rcases within_or_behind h with hm | ⟨r,hr,rfl⟩
    · rcases stages hm with rfl | rfl | rfl | rfl | rfl <;>
        simp only [Letter.effects,List.mem_cons,List.not_mem_nil,or_false] at he
      · subst he
        simp at hstage
      · rcases he with rfl | rfl <;> simp at hstage
      · rcases he with rfl | rfl | rfl <;> simp at hstage ⊢
      · rcases he with rfl | rfl | rfl | rfl <;> simp [Letter.effects] at hstage ⊢
    · rcases List.mem_append.mp he with he | he
      · have hletter : e.letter = m := by
          simp only [Letter.effects,List.mem_cons,List.not_mem_nil,or_false] at he
          rcases he with rfl | rfl | rfl | rfl <;> rfl
        simp [Letter.effects,hletter]
      · obtain ⟨hown,hpeer⟩ := ih hr he
        exact ⟨List.mem_append_right _ hown,List.mem_append_right _ hpeer⟩

theorem brings_effects (stage : Stage) (m : Letter U T) :
    m.effects.filterMap (Effect.brings stage x y) = (m.textFor x y).toList := by
  by_cases hm : m.author = x ∧ m.peer = y <;> cases stage <;>
    simp [Letter.effects,Effect.brings,Letter.textFor,hm]

/-- The recipient has the same texts as the author's own box shows, but perhaps the last. -/
theorem copies_in_step {ls : List (Letter U T)} (h : l <+: ls.flatMap Letter.effects) :
    l.filterMap (Effect.brings .peerCopy x y) <+: l.filterMap (Effect.brings .ownCopy x y) ∧
      (l.filterMap (Effect.brings .ownCopy x y)).length ≤
        (l.filterMap (Effect.brings .peerCopy x y)).length + 1 := by
  induction ls generalizing l with
  | nil =>
    obtain rfl : l = [] := by simpa using h
    simp
  | cons m ls ih =>
    rcases within_or_behind h with hm | ⟨r,hr,rfl⟩
    · by_cases hxy : m.author = x ∧ m.peer = y <;>
        rcases stages hm with rfl | rfl | rfl | rfl | rfl <;>
        simp [Letter.effects,Effect.brings,hxy]
    · obtain ⟨hinitial,hlength⟩ := ih hr
      simp only [List.filterMap_append,brings_effects]
      refine ⟨(List.prefix_append_right_inj _).mpr hinitial,?_⟩
      simp only [List.length_append]
      omega

end

namespace Office

variable {o : Office U T} {x y : U}

theorem Sequential.doneFirst (h : o.Sequential) (u : U) :
    (o.done.reverse.filter fun e => e.letter.author = u) <+:
      (o.letters.filter fun l => l.author = u).flatMap Letter.effects :=
  h u ▸ List.prefix_append _ _

/-- Whatever is announced to `x` of `y` is in the box of `x` for `y` and in that of `y` for `x`. -/
theorem Sequential.notice_delivered (h : o.Sequential) {t : T} (ht : o.notice x y = some t) :
    ∃ author, (author = x ∨ author = y) ∧ (author,t) ∈ o.box x y ∧ (author,t) ∈ o.box y x := by
  obtain ⟨e,he,hann⟩ := List.exists_of_findSome?_eq_some ht
  have hcopies : e.stage = .ownNotice ∨ e.stage = .peerNotice →
      ⟨e.letter,.ownCopy⟩ ∈ o.done ∧ ⟨e.letter,.peerCopy⟩ ∈ o.done := by
    intro hstage
    have hmem : e ∈ o.done.reverse.filter fun d => d.letter.author = e.letter.author :=
      List.mem_filter.mpr ⟨List.mem_reverse.mpr he,by simp⟩
    obtain ⟨hown,hpeer⟩ := copies_of_notice (h.doneFirst e.letter.author) hmem hstage
    exact ⟨List.mem_reverse.mp (List.mem_filter.mp hown).1,
      List.mem_reverse.mp (List.mem_filter.mp hpeer).1⟩
  unfold Effect.announces at hann
  split at hann
  · rename_i hstage
    obtain ⟨⟨hx,hy⟩,htext⟩ := Option.ite_none_right_eq_some.mp hann
    obtain ⟨hown,hpeer⟩ := hcopies (Or.inl hstage)
    obtain rfl := Option.some.inj htext
    refine ⟨x,Or.inl rfl,List.mem_filterMap.mpr ⟨_,hown,?_⟩,List.mem_filterMap.mpr ⟨_,hpeer,?_⟩⟩
    · simp [Effect.intoBox,hx,hy]
    · simp [Effect.intoBox,hx,hy]
  · rename_i hstage
    obtain ⟨⟨hx,hy⟩,htext⟩ := Option.ite_none_right_eq_some.mp hann
    obtain ⟨hown,hpeer⟩ := hcopies (Or.inr hstage)
    obtain rfl := Option.some.inj htext
    refine ⟨y,Or.inr rfl,List.mem_filterMap.mpr ⟨_,hpeer,?_⟩,List.mem_filterMap.mpr ⟨_,hown,?_⟩⟩
    · simp [Effect.intoBox,hx,hy]
    · simp [Effect.intoBox,hx,hy]
  · simp at hann

theorem filter_box_own (hxy : x ≠ y) (o : Office U T) :
    (o.box x y).filter (fun m => m.1 = x) =
      ((o.done.reverse.filter fun e => e.letter.author = x).filterMap
        (Effect.brings .ownCopy x y)).reverse.map (x,·) := by
  rw [← List.filterMap_reverse,List.filter_reverse,List.reverse_reverse,List.filterMap_filter,box,
    List.filter_filterMap,List.map_filterMap]
  refine List.filterMap_congr fun e _ => ?_
  obtain ⟨⟨author,peer,text⟩,stage⟩ := e
  cases stage <;> by_cases hx : author = x <;> by_cases hy : peer = y <;>
    simp [Effect.intoBox,Effect.brings,hx,hy,hxy,hxy.symm]

theorem filter_box_peer (hxy : x ≠ y) (o : Office U T) :
    (o.box y x).filter (fun m => m.1 = x) =
      ((o.done.reverse.filter fun e => e.letter.author = x).filterMap
        (Effect.brings .peerCopy x y)).reverse.map (x,·) := by
  rw [← List.filterMap_reverse,List.filter_reverse,List.reverse_reverse,List.filterMap_filter,box,
    List.filter_filterMap,List.map_filterMap]
  refine List.filterMap_congr fun e _ => ?_
  obtain ⟨⟨author,peer,text⟩,stage⟩ := e
  cases stage <;> by_cases hx : author = x <;> by_cases hy : peer = y <;>
    simp [Effect.intoBox,Effect.brings,hx,hy,hxy,hxy.symm]

theorem brings_flatMap (stage : Stage) (ls : List (Letter U T)) :
    (ls.flatMap Letter.effects).filterMap (Effect.brings stage x y) =
      ls.filterMap (Letter.textFor x y) := by
  induction ls with
  | nil => rfl
  | cons m ls ih =>
    rw [List.flatMap_cons,List.filterMap_append,brings_effects,ih]
    cases hm : m.textFor x y <;> simp [hm]

/-- Without gaps: what the box of `x` shows as sent to `y` is the beginning of what `x` posted
for `y`, and `y` has received all of it or all but the last text. -/
theorem Sequential.received (h : o.Sequential) (hxy : x ≠ y) :
    ∃ shown received, shown <+: o.posted x y ∧ received <+: shown ∧
      shown.length ≤ received.length + 1 ∧
      (o.box x y).filter (fun m => m.1 = x) = shown.reverse.map (x,·) ∧
      (o.box y x).filter (fun m => m.1 = x) = received.reverse.map (x,·) := by
  obtain ⟨hstep,hlength⟩ := copies_in_step (x := x) (y := y) (h.doneFirst x)
  refine ⟨_,_,?_,hstep,hlength,filter_box_own hxy o,filter_box_peer hxy o⟩
  have hposted : (o.letters.filter fun l => l.author = x).filterMap (Letter.textFor x y) =
      o.posted x y := by
    rw [List.filterMap_filter,posted]
    refine List.filterMap_congr fun l _ => ?_
    by_cases hx : l.author = x <;> simp [Letter.textFor,hx]
  rw [← hposted,← brings_flatMap .ownCopy]
  exact (h.doneFirst x).filterMap _

end Office
end PostOffice
end MessageApp
