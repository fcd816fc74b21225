import Vmodem.Invariants.Calls
import Vmodem.Invariants.Stores

/-! The ringing phase of a call. It begins with the RING of the accepted call and is
over for good when the call is answered, and the write functions that go on after a
flush stay within one phase. -/

namespace Vmodem

/-- The blocks by which a write function goes on, with the port. -/
def Block.resumes : Block → Option PortIdx
  | .retryChar i _ | .write i _ _ | .retryWrite i _ _ _ => some i
  | _ => none

def Block.flushes : Block → Bool
  | .flush _ => true
  | _ => false

section Steps

variable {b : Block} {a : Answer} {s : Sys} {i : PortIdx}

/-- An answered call does not ring again. -/
theorem ringing_off (hModes : s.ModesAgree) (hRing : b ≠ .ring i) (hOff : (s.ats i).ringing = false)
    (a : Answer) : ((exec b a s).1.ats i).ringing = false := by
  have hLine : ((exec b a s).1.ats i).ringing = ((s.line i).run (b.lineEvents a s i)).ringing :=
    congrArg Line.ringing (exec_line b a hModes)
  have hBefore : (s.line i).ringing = false := hOff
  rw [hLine]
  rcases lineEvents_cases b a s i with hNone | ⟨e, hOne, hFrom⟩ | hTyped
  · rw [hNone]
    exact hBefore
  · rw [hOne]
    cases e with
    | ring => exact absurd hFrom hRing
    | answer => rfl
    | reset keep => exact Bool.and_eq_false_imp.mpr fun hOn => absurd hOn (by simp [hBefore])
    | onHook => rfl
    | purge | poll | init _ => simpa using hBefore
    | connect | door _ => exact hBefore
  · rcases run_typed_phase hTyped (s.line i) with ⟨_, hSame, _⟩ | ⟨_, hAnswered, _⟩
    · exact hSame.trans hBefore
    · exact hAnswered

theorem exec_flushes (h : b.flushes) : (exec b a s).2 = [] := by
  cases b with
  | flush i => rfl
  | _ => cases h

theorem writeDone_resumes (count : UInt16) : ∀ d ∈ writeDone i count, d.resumes = none := by
  unfold writeDone
  split_ifs <;> simp [Block.resumes]

/-- Where no write function goes on, there is nothing to flush in front of it. -/
theorem pairwise_of_resumes {bs : List Block} (h : ∀ d ∈ bs, d.resumes = none) :
    bs.Pairwise fun c d => d.resumes.isSome → c.flushes :=
  List.pairwise_of_forall_mem_list fun _ _ d hd hResumes => by simp [h d hd] at hResumes

/-- AH=01h goes on with its byte right behind a flush, with no block in between that
could ring. -/
theorem transmit_resumes (v : UInt8) :
    (transmit i v s).2.Pairwise fun c d => d.resumes.isSome → c.flushes := by
  unfold transmit
  extract_lets r
  cases r.2 with
  | consumed | hangup => exact pairwise_of_resumes (by simp [Block.resumes])
  | pass =>
      dsimp only
      split_ifs
      · exact pairwise_of_resumes (by simp [Block.resumes])
      · split
        next => exact pairwise_of_resumes (by simp [Block.resumes])
        next =>
          split
          next => exact pairwise_of_resumes (by simp [Block.resumes])
          next => simp [Block.resumes, Block.flushes]

/-- AH=19h goes on with the same byte right behind a flush. -/
theorem writeNext_resumes (data : List UInt8) (count : UInt16) :
    (writeNext i data count s).2.Pairwise fun c d => d.resumes.isSome → c.flushes := by
  unfold writeNext
  split
  next => exact pairwise_of_resumes (writeDone_resumes count)
  next => exact pairwise_of_resumes (writeDone_resumes count)
  next => split <;> simp [Block.flushes]

/-- After the flush AH=19h goes on with the next byte or ends. -/
theorem retryWrite_resumes (v : UInt8) (rest : List UInt8) (count : UInt16) :
    (retryWrite i v rest count s).2.Pairwise fun c d => d.resumes.isSome → c.flushes := by
  unfold retryWrite
  split
  next => exact pairwise_of_resumes (writeDone_resumes count)
  next =>
    split
    next => simp
    next => exact pairwise_of_resumes (writeDone_resumes count)

/-- AH=19h begins with its first byte, or with its result. -/
theorem blockWrite_resumes (data : List UInt8) :
    (blockWrite i data s).2.Pairwise fun c d => d.resumes.isSome → c.flushes := by
  unfold blockWrite
  split_ifs
  · simp
  · exact pairwise_of_resumes (writeDone_resumes 0)

/-- A write function goes on directly after its flush. -/
theorem exec_resumes (b : Block) (a : Answer) (s : Sys) :
    (exec b a s).2.Pairwise fun c d => d.resumes.isSome → c.flushes := by
  by_cases hAny : ∃ d ∈ (exec b a s).2, d.resumes.isSome
  · obtain ⟨d, hMem, hResumes⟩ := hAny
    have hInt14 : ∀ j f, (∃ v, f = .transmit v) ∨ (∃ data, f = .blockWrite data) →
        (exec (.int14 j f) a s).2.Pairwise fun c d => d.resumes.isSome → c.flushes := by
      intro j f hf
      show (int14 j f s).2.Pairwise _
      unfold int14
      by_cases hInit : (s.ports j).initialized
      · rw [if_pos hInit]
        rcases hf with ⟨v, rfl⟩ | ⟨data, rfl⟩
        · exact transmit_resumes v
        · exact blockWrite_resumes data
      · rw [if_neg hInit]
        exact .nil
    have hFollowed := exec_followed b a s d hMem
    cases d with
    | retryChar j v =>
        obtain ⟨rfl, _⟩ := hFollowed
        exact hInt14 j _ (.inl ⟨v, rfl⟩)
    | write j data count =>
        rcases hFollowed with rfl | ⟨v, count', rfl | rfl⟩
        · exact hInt14 j _ (.inr ⟨data, rfl⟩)
        · exact writeNext_resumes _ _
        · exact retryWrite_resumes _ _ _
    | retryWrite j v rest count =>
        obtain rfl : b = .write j (v :: rest) count := hFollowed
        exact writeNext_resumes _ _
    | _ => cases hResumes
  · exact List.pairwise_of_forall_mem_list fun _ _ d hd hResumes => absurd ⟨d, hd, hResumes⟩ hAny

end Steps

/-- Only flushes stand above a write function that goes on. -/
theorem stack_resumes {c : Config} (h : Reachable c) :
    c.todo.Pairwise fun c d => d.resumes.isSome → c.flushes := by
  refine stack_deferred Block.flushes (fun d => d.resumes.isSome) (fun _ _ _ => exec_flushes)
    (fun d hBoots => ?_) exec_resumes h
  cases d <;> simp_all [Block.boots, Block.resumes]

end Vmodem
