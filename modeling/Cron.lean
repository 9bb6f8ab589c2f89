import Cron.Text.Blank
import Cron.Text.Cut
import Cron.Text.Decimal
import Cron.Success
import Cron.Field
import Cron.Fault
import Cron.FieldTexts
import Cron.Grammar
import Cron.Expansion
import Cron.Calendar.Date
import Cron.Calendar.TimeOfDay
import Cron.Calendar.Moment
import Cron.Calendar.Instant
import Cron.Calendar.Reading
import Cron.Schedule
import Cron.Json.Reader
import Cron.Json.Quoted
import Cron.Json.Numeral
import Cron.Json.Skip
import Cron.Json.Record
import Cron.Search.Carry
import Cron.Search.Walk
import Cron.Search.Outcome
import Cron.Planner
import Cron.Runs
import Cron.Expression
import Cron.Log
import Cron.Document
import Cron.Proofs.Calendar.Order
import Cron.Proofs.Calendar.Cycle
import Cron.Proofs.Text
import Cron.Proofs.Shape
import Cron.Proofs.Denotation
import Cron.Proofs.Grammar
import Cron.Proofs.Expansion
import Cron.Proofs.Schedule
import Cron.Proofs.Agreement
import Cron.Proofs.Search.Carry
import Cron.Proofs.Search.Walk
import Cron.Proofs.Search.Horizon
import Cron.Proofs.Planner
import Cron.Proofs.Runs
import Cron.Proofs.Union
import Cron.Proofs.Search.Plain
import Cron.Proofs.Restart
import Cron.Proofs.Calendar.Shift
import Cron.Proofs.Recurrence
import Cron.Proofs.Search.Trail
import Cron.Proofs.Log
import Cron.Proofs.Faults
import Cron.Proofs.Blame
import Cron.Proofs.Document
import Cron.Proofs.Search.Successor
import Cron.Proofs.Letters
import Cron.Proofs.Spelling
import Cron.Proofs.Record
import Cron.Proofs.Ceiling
import Cron.Proofs.Search.Landing
