import Mathlib.Logic.Relation

-- News that is passed on over links. Whoever is told passes it on to its
-- neighbours, but not to one that has been told, and copies may take their time.
structure News (P : Type*) where
  told : P → Prop
  coming : P → P → Prop

namespace News
variable {P : Type*} {adj : P → P → Prop} {source more : P → Prop} {a b : News P}

structure Passes (adj : P → P → Prop) (source : P → Prop) (a b : News P) : Prop where
  keeps : ∀ y, a.told y → b.told y
  rises : ∀ y, source y → b.told y
  arrives : ∀ y z, a.coming y z → b.coming y z ∨ b.told z
  spreads : ∀ y z, b.told y → adj y z → a.told y ∨ b.coming y z ∨ b.told z
  hears : ∀ z, b.told z → a.told z ∨ source z ∨ ∃ y, a.coming y z
  sends : ∀ y z, b.coming y z → a.coming y z ∨ b.told y ∧ adj y z

-- The news is nowhere but where it has come over links from a source, and it is
-- on its way to every neighbour of a node that has been told.
structure Covers (adj : P → P → Prop) (source : P → Prop) (a : News P) : Prop where
  rises : ∀ x, source x → a.told x
  rooted : ∀ y, a.told y → ∃ x, source x ∧ Relation.ReflTransGen adj x y
  backed : ∀ y z, a.coming y z → a.told y ∧ adj y z
  covered : ∀ y z, a.told y → adj y z → a.coming y z ∨ a.told z

theorem Passes.refl (adj : P → P → Prop) (a : News P) : Passes adj (fun _ => False) a a where
  keeps _ := id
  rises _ := nofun
  arrives _ _ := .inl
  spreads _ _ told _ := .inl told
  hears _ := .inl
  sends _ _ := .inl

theorem silent_covers (untold : ∀ y, ¬a.told y) (still : ∀ y z, ¬a.coming y z) : Covers adj (fun _ => False) a where
  rises _ := nofun
  rooted y told := (untold y told).elim
  backed y z coming := (still y z coming).elim
  covered y _ told := (untold y told).elim

theorem Passes.covers (passes : Passes adj more a b) (covers : Covers adj source a) :
    Covers adj (fun x => source x ∨ more x) b where
  rises x given := given.elim (fun known => passes.keeps x (covers.rises x known)) (passes.rises x)
  rooted y told := by
    rcases passes.hears y told with before | new | ⟨x,coming⟩
    · obtain ⟨x,known,path⟩ := covers.rooted y before
      exact ⟨x,.inl known,path⟩
    · exact ⟨y,.inr new,.refl⟩
    · obtain ⟨told,linked⟩ := covers.backed x y coming
      obtain ⟨root,known,path⟩ := covers.rooted x told
      exact ⟨root,.inl known,path.tail linked⟩
  backed y z coming := by
    rcases passes.sends y z coming with before | sent
    · obtain ⟨told,linked⟩ := covers.backed y z before
      exact ⟨passes.keeps y told,linked⟩
    · exact sent
  covered y z told linked := by
    rcases passes.spreads y z told linked with before | after
    · rcases covers.covered y z before linked with coming | known
      · exact passes.arrives y z coming
      · exact .inr (passes.keeps z known)
    · exact after

theorem Covers.told_iff (covers : Covers adj source a) (still : ∀ y z, ¬a.coming y z) (y : P) :
    a.told y ↔ ∃ x, source x ∧ Relation.ReflTransGen adj x y := by
  refine ⟨covers.rooted y,fun given => ?_⟩
  obtain ⟨x,known,path⟩ := given
  induction path with
  | refl => exact covers.rises x known
  | tail _ linked ih => exact (covers.covered _ _ ih linked).resolve_left (still _ _)

end News
