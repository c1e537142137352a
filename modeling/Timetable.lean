import Timetable.Logging
import Timetable.Main
import Timetable.Proofs.Additions
import Timetable.Proofs.Anniversary
import Timetable.Proofs.Chronological
import Timetable.Proofs.Codes
import Timetable.Proofs.Coverage
import Timetable.Proofs.Encodings
import Timetable.Proofs.Generation
import Timetable.Proofs.Idempotence
import Timetable.Proofs.Identifiers
import Timetable.Proofs.Interleaving
import Timetable.Proofs.Keyed.Consistent
import Timetable.Proofs.Keyed.Isolation
import Timetable.Proofs.Keyed.Undo
import Timetable.Proofs.Names
import Timetable.Proofs.Numeral
import Timetable.Proofs.Operator
import Timetable.Proofs.Paging
import Timetable.Proofs.Parity
import Timetable.Proofs.Relational.Isolation
import Timetable.Proofs.Relational.Truncation
import Timetable.Proofs.Relational.Unbatched
import Timetable.Proofs.Server.Outage
import Timetable.Proofs.Server.Requests
import Timetable.Proofs.Server.Sending
import Timetable.Proofs.Slices
import Timetable.Server.Session
