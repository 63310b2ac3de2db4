import FluentCensus.Main
import FluentCensus.Proofs.Chain.Closing
import FluentCensus.Proofs.Chain.Construction
import FluentCensus.Proofs.Chain.Inside
import FluentCensus.Proofs.Chain.PostOrder
import FluentCensus.Proofs.Chain.Walk
import FluentCensus.Proofs.CommandLine.Precedence
import FluentCensus.Proofs.Dotenv.Comment
import FluentCensus.Proofs.Histogram.Algebra
import FluentCensus.Proofs.Histogram.Figures
import FluentCensus.Proofs.Plan.Agreement
import FluentCensus.Proofs.Plan.Escape
import FluentCensus.Proofs.Plan.Observed
import FluentCensus.Proofs.Plan.Total
import FluentCensus.Proofs.Project.Contents
import FluentCensus.Proofs.Source.Layout
import FluentCensus.Proofs.Source.LineEnd
import FluentCensus.Proofs.Source.Spacing
import FluentCensus.Proofs.Text.Utf8
import FluentCensus.Proofs.Trace.Blocks
import FluentCensus.Proofs.Trace.Isolation
