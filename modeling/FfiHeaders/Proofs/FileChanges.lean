import FfiHeaders.Files.Store

/-!
# Changes to files

A store can keep a record of the changes that it makes. Keeping it changes nothing else, so what an
operation writes can be read off the record.
-/
namespace FfiHeaders

namespace Files

/-- A change that a store has made. -/
inductive Change
  | directory (p : Path)
  | file (p : Path) (content : ByteArray)

/-- The files that changes write, in order. -/
def filesOf : List Change → List (Path × ByteArray)
  | [] => []
  | .directory _ :: cs => filesOf cs
  | .file p content :: cs => (p, content) :: filesOf cs

theorem filesOf_append (cs ds : List Change) : filesOf (cs ++ ds) = filesOf cs ++ filesOf ds := by
  induction cs with
  | nil => rfl
  | cons c cs ih =>
    cases c with
    | directory p => exact ih
    | file p content => exact congrArg ((p, content) :: ·) ih

theorem filesOf_append_of_nil {cs ds : List Change} (h : filesOf cs = []) :
    filesOf (cs ++ ds) = filesOf ds := by
  rw [filesOf_append, h, List.nil_append]

/-- What comes after an action starts from where the action ends. -/
theorem bind_of_eq {σ α β : Type} {x : StateM σ α} {f : α → StateM σ β} {s t : σ} {a : α}
    (h : x s = (a, t)) : (x >>= f) s = f a t := by
  change f (x s).1 (x s).2 = f a t
  rw [h]

namespace Store

variable {W α β : Type}

/-- An action that leaves the record as it is. -/
def observe (x : StateM W α) : StateM (W × List Change) α := fun w =>
  ((x w.1).1, (x w.1).2, w.2)

/-- An action that adds a change to the record unless it is refused. -/
def record (c : Change) (x : StateM W (Except Refusal Unit)) :
    StateM (W × List Change) (Except Refusal Unit) := fun w =>
  ((x w.1).1, (x w.1).2, if (x w.1).1.isOk then w.2 ++ [c] else w.2)

/-- The store with a record of the changes that it makes. -/
def recorded (s : Store (StateM W)) : Store (StateM (W × List Change)) where
  read p := observe (s.read p)
  write p content := record (.file p content) (s.write p content)
  makeDirectory p := record (.directory p) (s.makeDirectory p)
  isDirectory p := observe (s.isDirectory p)

/-- The action `x` does what `y` does and adds changes to the record, which `P` allows for what `y`
results in. -/
def Mirrors (x : StateM (W × List Change) α) (y : StateM W α) (P : α → List Change → Prop) : Prop :=
  ∀ w cs, ∃ ds, x (w, cs) = ((y w).1, (y w).2, cs ++ ds) ∧ P (y w).1 ds

namespace Mirrors

variable {x : StateM (W × List Change) α} {y : StateM W α} {P Q : α → List Change → Prop}

theorem mono (h : Mirrors x y P) (hP : ∀ a cs, P a cs → Q a cs) : Mirrors x y Q := by
  intro w cs
  obtain ⟨ds, hx, hd⟩ := h w cs
  exact ⟨ds, hx, hP _ _ hd⟩

theorem pure {a : α} (h : P a []) : Mirrors (pure a) (pure a : StateM W α) P :=
  fun _ cs => ⟨[], by rw [List.append_nil]; rfl, h⟩

theorem bind {f : α → StateM (W × List Change) β} {g : α → StateM W β} {R : β → List Change → Prop}
    {S : α → β → List Change → Prop} (h : Mirrors x y P) (hf : ∀ a, Mirrors (f a) (g a) (S a))
    (hR : ∀ a b cs ds, P a cs → S a b ds → R b (cs ++ ds)) : Mirrors (x >>= f) (y >>= g) R := by
  intro w cs
  obtain ⟨ds, hx, hd⟩ := h w cs
  obtain ⟨es, he, hS⟩ := hf (y w).1 (y w).2 (cs ++ ds)
  refine ⟨ds ++ es, ?_, hR _ _ _ _ hd hS⟩
  change f (x (w, cs)).1 (x (w, cs)).2 = _
  rw [hx, he, List.append_assoc]
  rfl

theorem bind_of_nil {f : α → StateM (W × List Change) β} {g : α → StateM W β}
    {R : β → List Change → Prop} (h : Mirrors x y fun _ cs => cs = [])
    (hf : ∀ a, Mirrors (f a) (g a) R) : Mirrors (x >>= f) (y >>= g) R :=
  h.bind hf fun _ _ _ _ hc hd => hc ▸ hd

theorem observe (y : StateM W α) : Mirrors (observe y) y fun _ cs => cs = [] :=
  fun _ cs => ⟨[], by rw [List.append_nil]; rfl, rfl⟩

theorem record (c : Change) (y : StateM W (Except Refusal Unit)) :
    Mirrors (record c y) y fun r cs => cs = if r.isOk then [c] else [] := by
  intro w cs
  refine ⟨_, ?_, rfl⟩
  rw [Store.record]
  split
  · rfl
  · rw [List.append_nil]

end Mirrors

variable {s : Store (StateM W)}

theorem mirrors_ensureDirectory (p : Path) :
    Mirrors (s.recorded.ensureDirectory p) (s.ensureDirectory p) fun _ cs => filesOf cs = [] := by
  refine (Mirrors.record (.directory p) (s.makeDirectory p)).bind
    (S := fun _ _ cs => filesOf cs = []) (fun r => ?_) fun r _ cs ds hc hd => ?_
  · cases r with
    | ok u => exact .pure rfl
    | error r =>
      refine (Mirrors.observe (s.isDirectory p)).bind_of_nil fun b => ?_
      split <;> exact .pure rfl
  · rw [filesOf_append_of_nil (by rw [hc]; split <;> rfl), hd]

theorem mirrors_ensureDirectories (p : Path) :
    Mirrors (s.recorded.ensureDirectories p) (s.ensureDirectories p) fun _ cs =>
      filesOf cs = [] := by
  unfold ensureDirectories
  refine (mirrors_ensureDirectory p).bind (S := fun _ _ cs => filesOf cs = [])
    (fun r => ?_) fun _ _ _ _ hc hd => (filesOf_append_of_nil hc).trans hd
  cases r with
  | ok u => exact .pure rfl
  | error r =>
    by_cases h : r.fault = .missing ∧ p.names ≠ []
    · dsimp only
      rw [dif_pos h, dif_pos h]
      refine (mirrors_ensureDirectories p.parent).bind (S := fun _ _ cs => filesOf cs = [])
        (fun r => ?_) fun _ _ _ _ hc hd => (filesOf_append_of_nil hc).trans hd
      cases r with
      | ok u => exact mirrors_ensureDirectory p
      | error r => exact .pure rfl
    · dsimp only
      rw [dif_neg h, dif_neg h]
      exact .pure rfl
termination_by p.names.length
decreasing_by
  have := List.length_pos_iff.2 h.2
  simp only [Path.parent, List.length_dropLast]
  omega

/-- Placing a file may make directories, and then writes this file or none. -/
theorem mirrors_place (p : Path) (content : ByteArray) :
    Mirrors (s.recorded.place p content) (s.place p content) fun r cs =>
      filesOf cs = if r.isOk then [(p, content)] else [] := by
  refine (mirrors_ensureDirectories p.parent).bind
    (S := fun _ r cs => filesOf cs = if r.isOk then [(p, content)] else [])
    (fun r => ?_) fun _ _ _ _ hc hd => (filesOf_append_of_nil hc).trans hd
  cases r with
  | ok u =>
    refine (Mirrors.record (.file p content) (s.write p content)).mono fun r cs hc => ?_
    rw [hc]
    split <;> rfl
  | error r => exact .pure rfl

/-- The file that a header becomes below a directory. -/
def fileBelow (root : Path) (f : String × String) : Path × ByteArray :=
  (root.join (.ofText f.1), f.2.toUTF8)

/-- Where nothing is refused, the files are written as they are given and in this order. -/
theorem mirrors_placeAll (root : Path) (fs : List (String × String)) :
    Mirrors (s.recorded.placeAll root fs) (s.placeAll root fs) fun r cs =>
      r.2 = .ok () → filesOf cs = fs.map (fileBelow root) := by
  induction fs with
  | nil => exact .pure fun _ => rfl
  | cons f fs ih =>
    refine (mirrors_place (root.join (.ofText f.1)) f.2.toUTF8).bind
      (S := fun r x cs => x.2 = .ok () → r = .ok () ∧ filesOf cs = fs.map (fileBelow root))
      (fun r => ?_) fun r x cs ds hc hd hx => ?_
    · cases r with
      | error r => exact .pure nofun
      | ok u =>
        refine ih.bind (S := fun x y cs => y.2 = x.2 ∧ cs = []) (fun x => .pure ⟨rfl, rfl⟩) ?_
        rintro x y cs ds hc ⟨hy, rfl⟩ hok
        rw [List.append_nil]
        exact ⟨rfl, hc (hy ▸ hok)⟩
    · obtain ⟨rfl, hfiles⟩ := hd hx
      rw [filesOf_append, hc, hfiles]
      rfl

/-- Nothing is refused when the files are placed one after the other. -/
def Accepts (s : Store (StateM W)) (root : Path) : List (String × String) → W → Prop
  | [], _ => True
  | f :: fs, w =>
    (s.place (root.join (.ofText f.1)) f.2.toUTF8 w).1 = .ok () ∧
      Accepts s root fs (s.place (root.join (.ofText f.1)) f.2.toUTF8 w).2

theorem placeAll_of_accepts {root : Path} {fs : List (String × String)} {w : W}
    (h : s.Accepts root fs w) : (s.placeAll root fs w).1.2 = .ok () := by
  induction fs generalizing w with
  | nil => rfl
  | cons f fs ih =>
    obtain ⟨hf, hfs⟩ := h
    rw [placeAll, bind_of_eq (Prod.ext hf rfl)]
    exact ih hfs

end Store

end Files

end FfiHeaders
