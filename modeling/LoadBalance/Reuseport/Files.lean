import LoadBalance.Reuseport.Site

/-!
# The files of the workers

What a run of a worker leaves in its file: a numbered line for each read which has moved
something. The lines account for what the clients have sent, and when the worker has
nothing left to do, nothing is missing. They are found again in the file unless a client
has sent the end of a line itself.
-/

namespace LoadBalance.Reuseport

/-- The bytes behind the number of each line. -/
def readFile (file : List Byte) : List (List Byte) :=
  (Terminated.split newline file).map fun line => (line.dropWhile fun byte => byte ≠ tab).drop 1

theorem mem_decimal {counter : BitVec 64} {byte : Byte} (byteMem : byte ∈ decimal counter) :
    48 ≤ byte.toNat := by
  rcases List.mem_map.mp byteMem with ⟨char, charMem, rfl⟩
  have digit := Char.isDigit_iff_toNat.mp (Nat.isDigit_of_mem_toDigits (by decide) (by decide)
    charMem)
  have low : 48 ≤ char.toNat := digit.1
  have high : char.toNat ≤ 57 := digit.2
  rw [BitVec.toNat_ofNat, Nat.mod_eq_of_lt (by omega)]
  exact low

theorem newline_mem_field {counter : BitVec 64} {buf : List Byte} :
    newline ∈ field counter buf ↔ newline ∈ buf := by
  rw [field, List.mem_append, List.mem_cons]
  constructor
  · rintro (number | same | inside)
    · exact absurd (mem_decimal number) (by decide)
    · exact absurd same (by decide)
    · exact inside
  · exact fun inside => .inr (.inr inside)

theorem drop_dropWhile_field (counter : BitVec 64) (buf : List Byte) :
    ((field counter buf).dropWhile fun byte => byte ≠ tab).drop 1 = buf := by
  rw [field, List.dropWhile_append_of_pos]
  · simp
  · intro byte byteMem
    apply decide_eq_true
    rintro rfl
    exact absurd (mem_decimal byteMem) (by decide)

/-- The fields of the file for the bytes of some reads. -/
def fields (reads : List (List Byte)) : List (List Byte) :=
  (reads.zipIdx 1).map fun entry => field (.ofNat 64 entry.2) entry.1

theorem readFile_text_iff (reads : List (List Byte)) :
    readFile (text reads) = reads ↔ ∀ buf ∈ reads, newline ∉ buf := by
  have free : (∀ field ∈ fields reads, newline ∉ field) ↔ ∀ buf ∈ reads, newline ∉ buf := by
    simp only [fields, List.forall_mem_map, newline_mem_field]
    constructor
    · intro absent buf bufMem
      rcases List.getElem_of_mem bufMem with ⟨index, inside, rfl⟩
      exact absent (reads[index], 1 + index)
        (List.mk_add_mem_zipIdx_iff_getElem?.mpr (List.getElem?_eq_getElem inside))
    · intro absent entry entryMem
      exact absent entry.1 (List.fst_mem_of_mem_zipIdx entryMem)
  have length : (fields reads).length = reads.length := by simp [fields]
  change (Terminated.split newline (Terminated.join newline (fields reads))).map _ = reads ↔ _
  rw [← free]
  constructor
  · intro same
    rw [← Terminated.length_split_join_iff, length]
    have counted := congrArg List.length same
    rwa [List.length_map] at counted
  · intro absent
    rw [Terminated.split_join absent, fields, List.map_map]
    simp only [Function.comp_def, drop_dropWhile_field]
    exact List.zipIdx_map_fst 1 reads

namespace Site

open Machine (Reachable)

variable {site : Site} {listenFd : Fd} {address : Ptr}

/--
In every state which a worker and its clients reach, the file holds the numbered lines of
its reads. For each connection, the bytes on these lines and those still to be read are
what the client has sent, in this order; if the client has reset the connection, the lines
still hold the beginning of it.
-/
theorem file_exact (reachable : Reachable step (start listenFd address) site) :
    site.worker.out = text (site.log.map Entry.data) ∧
      site.worker.counter = .ofNat 64 site.log.length ∧
      ∀ conn, site.logged conn <+: (site.client conn).sent ∧
        ((site.client conn).reset = false →
          site.logged conn ++ (site.client conn).unread = (site.client conn).sent) := by
  have kept := kept_of_reachable reachable
  exact ⟨kept.written, kept.counted, fun conn => ⟨(kept.account conn).logged_begins,
    (kept.account conn).whole⟩⟩

/-- A client sends two lines in one piece and a word in the next, and ends the connection. -/
def sampleEvents : List SiteEvent :=
  [.connect 0, .wait [(3, EPOLLIN)], .accept (some 7) false 1 0 0, .send 0 [0x61, newline, 0x62],
    .wait [(7, EPOLLIN)], .read 3, .send 0 [0x63], .wait [(7, EPOLLIN)], .read 1, .shutdown 0,
    .wait [(7, EPOLLIN)], .read 1]

theorem file_exact_sampleEvents :
    ∃ site : Site, site.log = [Entry.mk 0 [0x61, newline, 0x62], Entry.mk 0 [0x63]] ∧
      site.worker.out = text (site.log.map Entry.data) := by
  have ran : ((Machine.run step (start 3 0) sampleEvents).any fun site =>
      site.log = [Entry.mk 0 [0x61, newline, 0x62], Entry.mk 0 [0x63]]) = true := by
    decide +kernel
  rcases Machine.exists_reachable_of_any sampleEvents ran with ⟨site, reachable, shown⟩
  exact ⟨site, of_decide_eq_true shown, (file_exact reachable).1⟩

/-- The lines are found again in the file if and only if no client has sent the end of one. -/
theorem readFile_out_iff (reachable : Reachable step (start listenFd address) site) :
    readFile site.worker.out = site.log.map Entry.data ↔
      ∀ entry ∈ site.log, newline ∉ entry.data := by
  rw [(kept_of_reachable reachable).written, readFile_text_iff, List.forall_mem_map]

theorem readFile_out_iff_sampleEvents :
    ∃ site : Site, site.log.length = 2 ∧ readFile site.worker.out ≠ site.log.map Entry.data := by
  have ran : ((Machine.run step (start 3 0) sampleEvents).any fun site =>
      site.log = [Entry.mk 0 [0x61, newline, 0x62], Entry.mk 0 [0x63]]) = true := by
    decide +kernel
  rcases Machine.exists_reachable_of_any sampleEvents ran with ⟨site, reachable, shown⟩
  have lines := of_decide_eq_true shown
  refine ⟨site, by rw [lines]; rfl, ?_⟩
  rw [ne_eq, readFile_out_iff reachable, lines]
  decide

/-- Every entry of `events_` can be served. -/
theorem Kept.exists_pass {ptr : Ptr} {eve : BitVec 32} {rest : List (Ptr × BitVec 32)}
    (kept : site.Kept) (running : site.stopped = none)
    (first : site.worker.events = (ptr, eve) :: rest) :
    ∃ event : SiteEvent, event.OfWorker ∧ site.step event ≠ none := by
  rcases kept.pass first with ⟨taken, others, _, fd, found⟩
  by_cases isListening : fd = site.worker.listenFd
  · refine ⟨.accept none false 0 0 0, trivial, ?_⟩
    have here : (site.take rest).worker.heap ptr = some ⟨(site.take rest).worker.listenFd⟩ := by
      rw [found, isListening]
      rfl
    simp only [Site.step, running, ne_eq, not_true_eq_false, if_false, first, Site.passListening,
      here, if_true]
    simp
  · have registered : site.worker.interest fd ≠ none := by
      rw [kept.sound.held fd ptr |>.mpr found]
      simp
    have isOpen := ((kept.registered fd).mp registered).resolve_left isListening
    rcases Option.ne_none_iff_exists'.mp isOpen with ⟨conn, isConn⟩
    have here : (site.take rest).table fd = some conn := isConn
    refine ⟨.read 1, trivial, ?_⟩
    have reads : ∃ read, ((site.take rest).client conn).read 1 = some read := by
      simp only [Client.read]
      split
      · rename_i unread
        have positive := List.length_pos_iff.mpr unread
        rw [if_pos ⟨Nat.one_pos, by decide, positive⟩]
        exact ⟨_, rfl⟩
      · split
        · exact ⟨_, rfl⟩
        · split
          · exact ⟨_, rfl⟩
          · exact ⟨_, rfl⟩
    rcases reads with ⟨⟨readn, client⟩, read⟩
    simp only [Site.step, running, ne_eq, not_true_eq_false, if_false, first, Site.passClient,
      found, here, read]
    simp

/-- What is ready is reported. -/
theorem Kept.exists_wait {fd : Fd} (kept : site.Kept) (running : site.stopped = none)
    (idle : site.worker.events = []) (ready : site.Ready fd) :
    ∃ event : SiteEvent, event.OfWorker ∧ site.step event ≠ none := by
  have registered : site.worker.interest fd ≠ none := by
    rw [kept.registered]
    rcases ready with ⟨isListening, _⟩ | ⟨conn, isConn, _⟩
    · exact .inl isListening
    · refine .inr ?_
      rw [Option.mem_def.mp isConn]
      simp
  have reports : site.worker.Reports [(fd, EPOLLIN)] := by
    refine ⟨Nat.le_of_ble_eq_true rfl, List.nodup_singleton fd, ?_⟩
    simpa [Option.isSome_iff_ne_none] using registered
  refine ⟨.wait [(fd, EPOLLIN)], trivial, ?_⟩
  have readable : EPOLLIN ≠ 0#32 := by decide
  simp [Site.step, running, idle, reports, ready, readable]

/--
When a running worker has no step left, everybody has been accepted, everything that was
sent without a reset stands in the file, and every connection which has ended is closed.
-/
theorem nothing_left (reachable : Reachable step (start listenFd address) site)
    (running : site.stopped = none)
    (stuck : ∀ event : SiteEvent, event.OfWorker → site.step event = none) :
    site.queue = [] ∧ ∀ conn,
      ((site.client conn).reset = false → site.logged conn = (site.client conn).sent) ∧
      ((site.client conn).Connected →
        (site.client conn).ended = false ∧ (site.client conn).reset = false) := by
  have kept := kept_of_reachable reachable
  have idle : site.worker.events = [] := by
    cases first : site.worker.events with
    | nil => rfl
    | cons entry rest =>
        rcases kept.exists_pass running first with ⟨event, ofWorker, possible⟩
        exact absurd (stuck event ofWorker) possible
  have quiet : ∀ fd, ¬site.Ready fd := by
    intro fd ready
    rcases kept.exists_wait running idle ready with ⟨event, ofWorker, possible⟩
    exact possible (stuck event ofWorker)
  have empty : site.queue = [] := by
    by_contra waiting
    exact quiet site.worker.listenFd (.inl ⟨rfl, waiting⟩)
  have notQueued : ∀ conn, (site.client conn).phase ≠ .queued := by
    intro conn queued
    have waiting := (kept.waiting conn).mpr queued
    rw [empty] at waiting
    cases waiting
  have drained : ∀ conn, (site.client conn).phase = .accepted → ¬(site.client conn).Readable := by
    intro conn accepted readable
    rcases kept.held conn accepted with ⟨fd, isConn⟩
    exact quiet fd (.inr ⟨conn, isConn, readable⟩)
  refine ⟨empty, fun conn => ⟨?_, ?_⟩⟩
  · intro notReset
    have account := kept.account conn
    have nothing : (site.client conn).unread = [] := by
      cases phase : (site.client conn).phase with
      | unborn =>
          rw [account.unborn phase]
          rfl
      | queued => exact absurd phase (notQueued conn)
      | accepted =>
          by_contra unread
          exact drained conn phase (.inl unread)
      | closed => exact (account.closed phase).1
      | lost => exact (account.lost phase).1
    have whole := account.whole notReset
    rwa [nothing, List.append_nil] at whole
  · rintro (queued | accepted)
    · exact absurd queued (notQueued conn)
    · have nothing := drained conn accepted
      simp only [Client.Readable, not_or, Bool.not_eq_true] at nothing
      exact nothing.2

/-- The worker has come to the end of the sample, and no descriptor of a client is open. -/
theorem exists_run_sampleEvents :
    ∃ site, Machine.run step (start 3 0) sampleEvents = some site ∧
      (∀ fd, site.table fd = none) ∧ site.stopped = none ∧ site.worker.events = [] ∧
      site.queue = [] ∧ (site.client 0).reset = false ∧
      (site.client 0).sent = [0x61, newline, 0x62, 0x63] := by
  refine ⟨_, rfl, ?_, rfl, rfl, rfl, rfl, rfl⟩
  intro fd
  change Function.update (Function.update (fun _ => none) 7 (some 0)) 7 none fd = none
  simp

theorem nothing_left_sampleEvents :
    ∃ site, Reachable step (start 3 0) site ∧ site.logged 0 = [0x61, newline, 0x62, 0x63] := by
  rcases exists_run_sampleEvents with ⟨site, ran, closed, running, idle, empty, notReset, sent⟩
  have reachable : Reachable step (start 3 0) site := ⟨sampleEvents, ran⟩
  refine ⟨site, reachable, ?_⟩
  have left := nothing_left reachable running ?_
  · rw [(left.2 0).1 notReset, sent]
  · have quiet : ∀ fd, ¬site.Ready fd := by
      intro fd ready
      simp [Ready, empty, closed] at ready
    intro event ofWorker
    cases event with
    | wait ready =>
        cases ready with
        | nil => simp [step]
        | cons entry ready => simp [step, quiet]
    | accept => simp [step, idle]
    | read => simp [step, idle]
    | connect | send | shutdown | reset => exact ofWorker.elim

end Site

end LoadBalance.Reuseport
