import Soyokaze.Protocol.H2.Unheeded
import Soyokaze.Protocol.H2.Windows
import Soyokaze.Protocol.H3.Unheeded

/-!
# After a peer's goodbye

Whichever of its versions frames the connection, a peer's GOAWAY is recorded and no more.
What is sent after it opens streams as it did before, and what waits on streams that it
disowns goes on waiting, as all else goes on.

* `goodbye_unheeded`: with GOAWAY or without, a connection does the same until it is through.
-/

namespace Soyokaze

/-- What a peer's goodbye says is recorded, and nothing is done about it. From then on a connection
    does as it would with any other record or with none, whatever comes next: over HTTP/2 until a
    receive ends with no stream open, over HTTP/3 until the worker winds the connection down, which
    it does once it has a record and nothing is left to be done. -/
theorem goodbye_unheeded :
    (∀ (world : World) (last code : ℕ) (debug : Octets) (c : H2Connection),
      ((H2Connection.handle world (.goAway last code debug)).run c).1 = (H2Connection.idle.run c).1.map (fun _ => none) ∧
        H2Connection.Alike (H2Connection.idle.run c).2 ((H2Connection.handle world (.goAway last code debug)).run c).2) ∧
    (∀ (events : List (World × H2Connection.Event)) (c : H2Connection) (g : Option ℕ), H2Connection.Lasts events c →
      H2Connection.Lasts events (c.recorded g) →
        H2Connection.outcomes events (c.recorded g) = H2Connection.outcomes events c ∧
          H2Connection.Alike (H2Connection.after events c) (H2Connection.after events (c.recorded g))) ∧
    (∀ (id : ℕ) (s : H3Session), ((H3Session.absorbControl (.goAway id)).run s).1 = .ok () ∧
      H3Session.Twins s ((H3Session.absorbControl (.goAway id)).run s).2) ∧
    (∀ (world : World) (inputs : List H3Worker.Input) (w : H3Worker) (g : Option ℕ), w.drained = false →
      (H3Worker.after world w inputs).drained = false → (H3Worker.after world (w.recorded g false) inputs).drained = false →
        H3Worker.outcomes world (w.recorded g false) inputs = H3Worker.outcomes world w inputs ∧
          H3Worker.Alike false (H3Worker.after world w inputs) (H3Worker.after world (w.recorded g false) inputs)) ∧
    ∀ w : H3Worker, H3Worker.windDown.run w =
      (.ok (), if !w.drained && w.session.goaway.isSome && w.idle then w.wound else w) := by
  refine ⟨fun world last code debug c => ?_, fun events c g hlasts hlasts' => ?_, fun id s => ⟨rfl, _, rfl⟩,
    fun world inputs w g hdrained hstays hstays' => ?_, H3Worker.run_windDown⟩
  · rw [H2Connection.handle]
    rcases hrun : H2Connection.idle.run c with ⟨error | _, c₁⟩
    · rw [Act.run_bind_error hrun]
      exact ⟨rfl, .refl c₁⟩
    · rw [Act.run_bind_ok hrun]
      exact ⟨rfl, some code, rfl⟩
  · exact H2Connection.unheeded events ⟨g, rfl⟩ hlasts hlasts'
  · exact H3Worker.unheeded inputs hdrained ⟨g, rfl⟩ hstays hstays'

/-! ## Requests after a goodbye -/

/-- A request. -/
def asks : Message := .request .GET (.lit "/") .v2_0

/-- A client whose peer says goodbye, and takes up no request at all. -/
def parting : H2Connection := H2Connection.configured
  ⟨(H2.Frame.settings false []).encode ++ (H2.Frame.goAway 0 H2.Code.NO_ERROR []).encode, false, []⟩ ⟨[], []⟩ .userAgent
  .default ⟨none⟩ ⟨none⟩ true

/-- And one over HTTP/3. -/
def partingWorker : H3Worker := .new (.new .userAgent .default)
  ⟨[], [some (.data [0x00, 0x04, 0x00, 0x07, 0x01, 0x00] false)]⟩ ⟨8, false⟩

/-- A request before its goodbye, and one after. -/
def asksTwice : List (World × H2Connection.Event) :=
  [(.bare, .pump), (.bare, .send asks), (.bare, .pump), (.bare, .send asks)]

def asksTwiceWorker : List H3Worker.Input :=
  [.established true, .asked (.send asks), .writes false, .reads [3], .asked (.send asks), .writes false]

/-- The second request goes out on a stream of its own, and the first goes on waiting. -/
theorem goodbye_opens :
    ((H2Connection.after asksTwice parting).goaway = some H2.Code.NO_ERROR ∧
      (H2Connection.outcomes asksTwice parting).all (·.isOk) ∧
      (H2Connection.after asksTwice parting).streams.keys = [3, 1] ∧ (H2Connection.after asksTwice parting).ready = []) ∧
    (H3Worker.after .bare partingWorker asksTwiceWorker).session.goaway = some 0 ∧
      (H3Worker.outcomes .bare partingWorker asksTwiceWorker).all (·.isOk) ∧
      (H3Worker.after .bare partingWorker asksTwiceWorker).session.streams.keys = [4, 0] ∧
      (H3Worker.after .bare partingWorker asksTwiceWorker).events.room = 8 := by
  decide +kernel

theorem goodbye_unheeded_opens :
    ((H2Connection.after [(.bare, .send asks)] parting).streams.keys = [1] ∧
      H2Connection.outcomes [(.bare, .send asks)] (parting.recorded (some 0)) =
        H2Connection.outcomes [(.bare, .send asks)] parting) ∧
    H3Worker.outcomes .bare (partingWorker.recorded (some 0) false) asksTwiceWorker =
      H3Worker.outcomes .bare partingWorker asksTwiceWorker := by
  obtain ⟨-, hsame, -, hsame', -⟩ := goodbye_unheeded
  have hlasts (c : H2Connection) : H2Connection.Lasts [(.bare, .send asks)] c :=
    .inr ⟨fun h => (by cases h), trivial⟩
  refine ⟨⟨by decide +kernel, (hsame _ _ _ (hlasts _) (hlasts _)).1⟩, (hsame' _ _ _ _ rfl ?_ ?_).1⟩
  · decide +kernel
  · decide +kernel

end Soyokaze
