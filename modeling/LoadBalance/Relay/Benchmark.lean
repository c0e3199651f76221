import LoadBalance.Bench.Totals
import LoadBalance.Relay.HalfClose
import LoadBalance.Relay.Silence

/-!
# The benchmark against the distributor

A client of the benchmark reads once on each of its connections, so that it gets the
beginning of what the distributor has written there. The distributor has two replies, and
the check of the benchmark accepts neither.
-/

namespace LoadBalance.Relay

open Bench (Answers Accepted Report Program Returning Proc runs mainClients)

/-- Whatever the parties do, a client is sent one of the two replies. -/
theorem World.sends_of_reachable {servers : ℕ} {boot : Boot servers}
    {garbage : Fin servers → Message Byte} {world : World servers}
    (reachable : Machine.Reachable World.step (boot.world garbage) world) :
    world.Sends fun reply => reply = correctRes ∨ reply = errRes := by
  rcases reachable with ⟨events, ran⟩
  exact (invariant_of_moves (Sends fun reply => reply = correctRes ∨ reply = errRes)
    (sends_boot _ boot garbage)
    (fun _ sends _ move => sends.move (.inr rfl) (fun _ _ _ _ => .inl rfl) move)
    (Machine.RunsUnder.of_run (fun _ _ => trivial) ran)).2

/-- What was read in this iteration comes from a connection of a distributor. -/
def FromDistributor (answers : Answers) : Prop :=
  ∃ (servers : ℕ) (boot : Boot servers) (garbage : Fin servers → Message Byte)
    (world : World servers) (conn : ConnId),
    Machine.Reachable World.step (boot.world garbage) world ∧
      answers.reply <+: (world.conn conn).outbound.flatten

/-- A full read at the beginning of the replies takes the first of them. -/
theorem not_accepted_of_replies {replies : List (List Byte)} {buf : List Byte}
    (isReply : ∀ reply ∈ replies, reply = correctRes ∨ reply = errRes)
    (front : buf <+: replies.flatten) (full : 16 ≤ buf.length) : ¬Accepted buf := by
  cases replies with
  | nil =>
      rw [List.flatten_nil, List.prefix_nil] at front
      rw [front] at full
      exact absurd full (by decide)
  | cons reply replies =>
      rcases front with ⟨rest, whole⟩
      rw [List.flatten_cons] at whole
      have length : reply.length = 16 := by
        rcases isReply reply List.mem_cons_self with rfl | rfl
        · exact length_correctRes
        · exact length_errRes
      have same : ∀ index < 16, buf[index]? = reply[index]? := by
        intro index inside
        have inBuf := @List.getElem?_append_left _ buf rest index (by omega)
        have inReply := @List.getElem?_append_left _ reply replies.flatten index (by omega)
        rw [← inBuf, whole, inReply]
      have refused : ¬Accepted reply := by
        rcases isReply reply List.mem_cons_self with rfl | rfl
        · exact Bench.not_accepted_correctRes
        · exact Bench.not_accepted_errRes
      rwa [Accepted, same 0 (by decide), same 10 (by decide), same 15 (by decide)]

theorem not_succeeds_of_fromDistributor {answers : Answers} (read : FromDistributor answers) :
    ¬answers.Succeeds := by
  rcases read with ⟨servers, boot, garbage, world, conn, reachable, front⟩
  intro succeeds
  exact not_accepted_of_replies (World.sends_of_reachable reachable conn) front
    succeeds.2.2.2.2.2.1 succeeds.2.2.2.2.2.2.1

theorem speed_ofRun_of_fromDistributor (program : Program) {run : List Answers}
    (answered : ∀ answers ∈ run, FromDistributor answers) :
    (Report.ofRun program run).speed = 0 := by
  have none : run.countP (fun answers => answers.Succeeds) = 0 := by
    rw [List.countP_eq_zero]
    intro answers answersMem succeeds
    exact not_succeeds_of_fromDistributor (answered answers answersMem)
      (of_decide_eq_true succeeds)
  rw [(Bench.ofRun_counts program run).1, none]
  rfl

/--
In every run of the benchmark in which each client talks to a distributor, however the clients,
the distributor and its inner servers take their steps: if the totals are printed, they have
no success, and the benchmark returns 0.
-/
theorem nothing_printed_of_distributor (program : Program) {c : ℤ} (nonneg : 0 ≤ c)
    {events : List Bench.Event} {final : Returning}
    (ran : Machine.run (Returning.step program) (.start (mainClients c)) events = some final)
    {original : Proc} {children : List Proc} (procs : final.system.procs = original :: children)
    (reported : original.pc = .reported)
    (answered : ∀ run ∈ runs events, ∀ answers ∈ run, FromDistributor answers) :
    original.parent.totals.speed = 0 ∧ final.status = some 0 := by
  rcases Returning.tallied_of_run nonneg ran procs with ⟨read, pending, lost, tallied⟩
  rcases tallied.reported reported with ⟨every, whole, order⟩
  have none : ∀ report ∈ read, report.speed = 0 := by
    intro report reportMem
    rcases List.mem_map.mp (order.subset reportMem) with ⟨run, runMem, rfl⟩
    exact speed_ofRun_of_fromDistributor program (answered run runMem)
  constructor
  · have sum : (read.map Report.speed).sum = 0 := by
      apply List.sum_eq_zero
      intro speed speedMem
      rcases List.mem_map.mp speedMem with ⟨report, reportMem, rfl⟩
      exact none report reportMem
    rw [tallied.totals, Bench.gather_eq, sum]
    rfl
  · rcases tallied.status (le_max_left 1 c) reported with ⟨report, reportMem, status⟩
    rw [status, none report reportMem]
    rfl

/-- A client which is answered with success, and then refused. -/
def sampleClient : List Bench.Event :=
  [⟨0, .probe 5⟩, ⟨0, .pipe 0⟩, ⟨0, .fork 201⟩,
    ⟨1, .benchcore 0 [.reading correctRes, .reading errRes]⟩, ⟨0, .fdopen true⟩,
    ⟨1, .fdopen true⟩, ⟨1, .report⟩, ⟨0, .fscanf⟩]

theorem fromDistributor_correctRes : FromDistributor (.reading correctRes) := by
  rcases Machine.exists_reachable_of_any World.endsAfterAnswer
    (show (Machine.run World.step (Boot.single.world fun _ => .zero) World.endsAfterAnswer).any
      (fun world => (world.conn 0).outbound = [correctRes]) = true by decide +kernel)
    with ⟨world, reachable, shown⟩
  refine ⟨1, Boot.single, fun _ => .zero, world, 0, reachable, ?_⟩
  rw [of_decide_eq_true shown]
  exact List.prefix_rfl

theorem fromDistributor_errRes : FromDistributor (.reading errRes) := by
  rcases Machine.exists_reachable_of_any (World.replyWaiting ++ [.ready 8 Boot.server true])
    (show (Machine.run World.step (Boot.single.world fun _ => .zero)
      (World.replyWaiting ++ [.ready 8 Boot.server true])).any
        (fun world => (world.conn 0).outbound = [errRes]) = true by decide +kernel)
    with ⟨world, reachable, shown⟩
  refine ⟨1, Boot.single, fun _ => .zero, world, 0, reachable, ?_⟩
  rw [of_decide_eq_true shown]
  exact List.prefix_rfl

theorem nothing_printed_of_distributor_sample :
    ∃ final original children,
      Machine.run (Returning.step .testBench) (.start (mainClients 0)) sampleClient =
        some final ∧ final.system.procs = original :: children ∧
      original.parent.totals.speed = 0 ∧ final.status = some 0 := by
  rcases @Machine.exists_run_of_any _ _ (Returning.step .testBench) (.start (mainClients 0))
      sampleClient (fun final => final.system.procs.head?.map Proc.pc = some .reported)
      (by decide +kernel) with ⟨final, ran, shown⟩
  rcases Option.map_eq_some_iff.mp (of_decide_eq_true shown) with ⟨original, first, reported⟩
  rcases List.head?_eq_some_iff.mp first with ⟨children, procs⟩
  have answered : ∀ run ∈ runs sampleClient, ∀ answers ∈ run, FromDistributor answers := by
    intro run runMem answers answersMem
    rw [List.mem_singleton.mp runMem] at answersMem
    rcases List.mem_pair.mp answersMem with rfl | rfl
    · exact fromDistributor_correctRes
    · exact fromDistributor_errRes
  exact ⟨final, original, children, ran, procs,
    nothing_printed_of_distributor .testBench (by decide) ran procs reported answered⟩

end LoadBalance.Relay
